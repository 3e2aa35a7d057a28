import Casework.Tree.Stmt

/-!
# Deciding equality of trees

Trees nest in lists of themselves, so their equality is decided by functions
that descend side by side, one for each kind of list.  Each of them holds exactly
when its arguments are equal, which gives the `DecidableEq` instances.

## Main definitions

* `Expr.same`, `Stmt.same` — two trees are the same.

## Main results

* `Expr.same_iff`, `Stmt.same_iff` — being the same is being equal.
-/

namespace Casework

/-! ### Expressions -/

namespace Expr

mutual

/-- The two expressions are the same. -/
def same : Expr → Expr → Bool
  | var x, var y => x == y
  | name x, name y => x == y
  | lit l, lit m => l == m
  | array as, array bs => sameList as bs
  | binary o a b, binary p c d => o == p && same a c && same b d
  | unary o a, unary p b => o == p && same a b
  | assign a b, assign c d => same a c && same b d
  | ternary a b c, ternary d e f => same a d && same b e && same c f
  | call f as, call g bs => same f g && sameList as bs
  | index a b, index c d => same a c && same b d
  | prop a x, prop b y => same a b && x == y
  | «match» s as, «match» t bs => same s t && sameArms as bs
  | _, _ => false
termination_by structural e => e

/-- The two lists hold the same expressions. -/
def sameList : List Expr → List Expr → Bool
  | [], [] => true
  | a :: as, b :: bs => same a b && sameList as bs
  | _, _ => false
termination_by structural es => es

/-- The two optional lists hold the same expressions. -/
def sameList? : Option (List Expr) → Option (List Expr) → Bool
  | none, none => true
  | some as, some bs => sameList as bs
  | _, _ => false
termination_by structural es => es

/-- The two lists hold the same arms. -/
def sameArms : List (Arm Expr) → List (Arm Expr) → Bool
  | [], [] => true
  | ⟨k, c, e⟩ :: as, ⟨l, d, f⟩ :: bs => k == l && sameList? c d && same e f && sameArms as bs
  | _, _ => false
termination_by structural as => as

end

mutual

/-- Being the same is being equal. -/
theorem same_iff : ∀ a b : Expr, same a b = true ↔ a = b
  | var _, b => by
    cases b with
    | var _ => simp [same]
    | _ => exact iff_of_false Bool.false_ne_true nofun
  | name _, b => by
    cases b with
    | name _ => simp [same]
    | _ => exact iff_of_false Bool.false_ne_true nofun
  | lit _, b => by
    cases b with
    | lit _ => simp [same]
    | _ => exact iff_of_false Bool.false_ne_true nofun
  | array as, b => by
    cases b with
    | array _ => simp [same, sameList_iff as]
    | _ => exact iff_of_false Bool.false_ne_true nofun
  | binary _ a c, b => by
    cases b with
    | binary _ _ _ => simp [same, same_iff a, same_iff c, and_assoc]
    | _ => exact iff_of_false Bool.false_ne_true nofun
  | unary _ a, b => by
    cases b with
    | unary _ _ => simp [same, same_iff a]
    | _ => exact iff_of_false Bool.false_ne_true nofun
  | assign a c, b => by
    cases b with
    | assign _ _ => simp [same, same_iff a, same_iff c]
    | _ => exact iff_of_false Bool.false_ne_true nofun
  | ternary a c d, b => by
    cases b with
    | ternary _ _ _ => simp [same, same_iff a, same_iff c, same_iff d, and_assoc]
    | _ => exact iff_of_false Bool.false_ne_true nofun
  | call f as, b => by
    cases b with
    | call _ _ => simp [same, same_iff f, sameList_iff as]
    | _ => exact iff_of_false Bool.false_ne_true nofun
  | index a i, b => by
    cases b with
    | index _ _ => simp [same, same_iff a, same_iff i]
    | _ => exact iff_of_false Bool.false_ne_true nofun
  | prop a _, b => by
    cases b with
    | prop _ _ => simp [same, same_iff a]
    | _ => exact iff_of_false Bool.false_ne_true nofun
  | «match» s as, b => by
    cases b with
    | «match» _ _ => simp [same, same_iff s, sameArms_iff as]
    | _ => exact iff_of_false Bool.false_ne_true nofun

theorem sameList_iff : ∀ as bs : List Expr, sameList as bs = true ↔ as = bs
  | [], bs => by cases bs <;> simp [sameList]
  | a :: as, bs => by cases bs <;> simp [sameList, same_iff a, sameList_iff as]

theorem sameList?_iff : ∀ as bs : Option (List Expr), sameList? as bs = true ↔ as = bs
  | none, bs => by cases bs <;> simp [sameList?]
  | some as, bs => by cases bs <;> simp [sameList?, sameList_iff as]

theorem sameArms_iff : ∀ as bs : List (Arm Expr), sameArms as bs = true ↔ as = bs
  | [], bs => by cases bs <;> simp [sameArms]
  | ⟨_, c, e⟩ :: as, [] => by simp [sameArms]
  | ⟨_, c, e⟩ :: as, ⟨_, _, _⟩ :: bs => by
    simp [sameArms, sameList?_iff c, same_iff e, sameArms_iff as, and_assoc]

end

instance : DecidableEq Expr := fun a b => decidable_of_iff _ (same_iff a b)

end Expr

/-! ### Statements -/

deriving instance DecidableEq for Leaf, Case

namespace Stmt

mutual

/-- The two statements are the same. -/
def same : Stmt → Stmt → Bool
  | leaf k a, leaf l b => k == l && a == b
  | block k a, block l b => k == l && sameList a b
  | «while» k c a, «while» l d b => k == l && c == d && sameList a b
  | conditional k c a es o, conditional l d b fs p =>
    k == l && c == d && sameList a b && sameClauses es fs && sameOtherwise o p
  | switch k s as, switch l t bs => k == l && s == t && sameCases as bs
  | _, _ => false
termination_by structural s => s

/-- The two lists hold the same statements. -/
def sameList : List Stmt → List Stmt → Bool
  | [], [] => true
  | a :: as, b :: bs => same a b && sameList as bs
  | _, _ => false
termination_by structural ss => ss

/-- The two lists hold the same clauses. -/
def sameClauses : List (Clause Stmt) → List (Clause Stmt) → Bool
  | [], [] => true
  | ⟨k, c, a⟩ :: as, ⟨l, d, b⟩ :: bs => k == l && c == d && sameList a b && sameClauses as bs
  | _, _ => false
termination_by structural cs => cs

/-- The two `else` clauses are the same. -/
def sameOtherwise : Option (Otherwise Stmt) → Option (Otherwise Stmt) → Bool
  | none, none => true
  | some ⟨k, a⟩, some ⟨l, b⟩ => k == l && sameList a b
  | _, _ => false
termination_by structural o => o

/-- The two lists hold the same cases. -/
def sameCases : List (Case Stmt) → List (Case Stmt) → Bool
  | [], [] => true
  | ⟨k, c, a⟩ :: as, ⟨l, d, b⟩ :: bs => k == l && c == d && sameList a b && sameCases as bs
  | _, _ => false
termination_by structural cs => cs

end

mutual

/-- Being the same is being equal. -/
theorem same_iff : ∀ a b : Stmt, same a b = true ↔ a = b
  | leaf _ _, b => by cases b <;> simp [same]
  | block _ as, b => by cases b <;> simp [same, sameList_iff as]
  | «while» _ _ as, b => by cases b <;> simp [same, sameList_iff as, and_assoc]
  | conditional _ _ as es o, b => by
    cases b <;> simp [same, sameList_iff as, sameClauses_iff es, sameOtherwise_iff o, and_assoc]
  | switch _ _ as, b => by cases b <;> simp [same, sameCases_iff as, and_assoc]

theorem sameList_iff : ∀ as bs : List Stmt, sameList as bs = true ↔ as = bs
  | [], bs => by cases bs <;> simp [sameList]
  | a :: as, bs => by cases bs <;> simp [sameList, same_iff a, sameList_iff as]

theorem sameClauses_iff : ∀ as bs : List (Clause Stmt), sameClauses as bs = true ↔ as = bs
  | [], bs => by cases bs <;> simp [sameClauses]
  | ⟨_, _, a⟩ :: as, [] => by simp [sameClauses]
  | ⟨_, _, a⟩ :: as, ⟨_, _, _⟩ :: bs => by
    simp [sameClauses, sameList_iff a, sameClauses_iff as, and_assoc]

theorem sameOtherwise_iff :
    ∀ a b : Option (Otherwise Stmt), sameOtherwise a b = true ↔ a = b
  | none, b => by cases b <;> simp [sameOtherwise]
  | some ⟨_, a⟩, none => by simp [sameOtherwise]
  | some ⟨_, a⟩, some ⟨_, _⟩ => by simp [sameOtherwise, sameList_iff a]

theorem sameCases_iff : ∀ as bs : List (Case Stmt), sameCases as bs = true ↔ as = bs
  | [], bs => by cases bs <;> simp [sameCases]
  | ⟨_, _, a⟩ :: as, [] => by simp [sameCases]
  | ⟨_, _, a⟩ :: as, ⟨_, _, _⟩ :: bs => by
    simp [sameCases, sameList_iff a, sameCases_iff as, and_assoc]

end

instance : DecidableEq Stmt := fun a b => decidable_of_iff _ (same_iff a b)

end Stmt

deriving instance DecidableEq for Program

end Casework
