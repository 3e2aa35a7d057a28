import Casework.Proofs.Expression

/-!
# Where comments settle

Reading the text of a program back does not always give the program.  An empty
statement is written as its comments alone, so on reading they lead the next
statement of the list or, where none follows, the next case of the switch.  Only
before a closing brace and at the end do they become an empty statement again.
`Stmt.settle` is this effect on trees.

## Main definitions

* `Checks`, `Stmt.every` — what is asked of all parts of a statement.
* `Checks.lexical`, `Checks.unled` — the text of a statement stands for it, and no
  expression begins like another statement.
* `Stmt.settle`, `Program.settle` — every comment moved to where it settles.
* `Stmt.settled`, `Program.settled` — every empty statement carries comments, is the
  last of its list and does not end a case that another one follows.

## Main results

* `Stmt.settle_eq_iff`, `Program.settle_eq_iff` — **a tree is left as it is exactly
  when it is settled**.
-/

namespace Casework

/-! ### Checks on all parts of a tree -/

/-- What is asked of the comments, the expressions and the leaves of a statement.
The expressions are those of its conditions and labels. -/
structure Checks where
  comment : Comment → Bool
  expr : Expr → Bool
  leaf : Leaf → Bool

/-- The expressions of the leaf are valid, and an `echo` has at least one operand. -/
def Leaf.validBy (accepts : Literal → Bool) : Leaf → Bool
  | .echo operands => !operands.isEmpty && Expr.validListBy accepts operands
  | .expr e => e.validBy accepts
  | .return value => value.all (Expr.validBy accepts)
  | .break | .continue | .nop => true

/-- The leaf with an expression in the place of each literal. -/
def Leaf.mapLit (f : Literal → Expr) : Leaf → Leaf
  | .echo operands => .echo (Expr.mapLits f operands)
  | .expr e => .expr (e.mapLit f)
  | .return value => .return (value.map (Expr.mapLit f))
  | .break => .break
  | .continue => .continue
  | .nop => .nop

/-- A literal in its own place changes nothing. -/
@[simp] theorem Leaf.mapLit_lit (l : Leaf) : l.mapLit .lit = l := by
  cases l with
  | echo operands => rw [mapLit, Expr.mapLits_lit]
  | expr e => rw [mapLit, Expr.mapLit_lit]
  | «return» value =>
    cases value with
    | none => rfl
    | some e =>
      show Leaf.return (some (e.mapLit .lit)) = _
      rw [Expr.mapLit_lit]
  | «break» | «continue» | nop => rfl

/-- The words that begin a statement or one of its parts. -/
def reservedWords : List (List Char) :=
  ["if", "else", "while", "switch", "case", "default", "echo", "return", "break",
    "continue"].map String.toList

/-- The text begins with a word that the reader of statements does not take for
an expression. -/
def isLed (text : List Char) : Bool :=
  reservedWords.contains (leadWord text) || "elseif".toList.isPrefixOf (leadWord text)

/-- The leaf is no expression whose text begins like another statement. -/
def Leaf.unled : Leaf → Bool
  | .expr e => !isLed e.text
  | _ => true

/-- Comments, names and literals are as the reader accepts them. -/
def Checks.validBy (accepts : Literal → Bool) : Checks where
  comment := Comment.wellFormed
  expr := Expr.validBy accepts
  leaf := Leaf.validBy accepts

/-- Comments, names and literals have a text that stands for them. -/
def Checks.lexical : Checks := .validBy Literal.lexical

/-- No expression that stands as a statement begins like another one. -/
def Checks.unled : Checks where
  comment := fun _ => true
  expr := fun _ => true
  leaf := Leaf.unled

namespace Stmt

mutual

/-- All parts of the statement pass their checks. -/
def every (c : Checks) : Stmt → Bool
  | leaf k l => k.all c.comment && c.leaf l
  | block k body => k.all c.comment && everyList c body
  | «while» k cond body => k.all c.comment && c.expr cond && everyList c body
  | conditional k cond body elseifs otherwise =>
    k.all c.comment && c.expr cond && everyList c body && everyClauses c elseifs &&
      everyOtherwise c otherwise
  | switch k subject cases => k.all c.comment && c.expr subject && everyCases c cases
termination_by structural s => s

/-- All parts of the statements pass their checks. -/
def everyList (c : Checks) : List Stmt → Bool
  | [] => true
  | s :: ss => s.every c && everyList c ss
termination_by structural ss => ss

/-- All parts of the clauses pass their checks. -/
def everyClauses (c : Checks) : List (Clause Stmt) → Bool
  | [] => true
  | ⟨k, cond, body⟩ :: clauses =>
    k.all c.comment && c.expr cond && everyList c body && everyClauses c clauses
termination_by structural clauses => clauses

/-- All parts of the `else` clause pass their checks. -/
def everyOtherwise (c : Checks) : Option (Otherwise Stmt) → Bool
  | none => true
  | some ⟨k, body⟩ => k.all c.comment && everyList c body
termination_by structural otherwise => otherwise

/-- All parts of the cases pass their checks. -/
def everyCases (c : Checks) : List (Case Stmt) → Bool
  | [] => true
  | ⟨k, key, body⟩ :: cases =>
    k.all c.comment && key.all c.expr && everyList c body && everyCases c cases
termination_by structural cases => cases

end

theorem comments_of_every {c : Checks} {s : Stmt} (h : s.every c = true) :
    s.comments.all c.comment = true := by
  cases s with
  | leaf k l =>
    rw [every, Bool.and_eq_true] at h
    exact h.1
  | block k body =>
    rw [every, Bool.and_eq_true] at h
    exact h.1
  | «while» k cond body =>
    rw [every, Bool.and_eq_true, Bool.and_eq_true] at h
    exact h.1.1
  | conditional k cond body elseifs otherwise =>
    simp only [every, Bool.and_eq_true] at h
    exact h.1.1.1.1
  | switch k subject cases =>
    rw [every, Bool.and_eq_true, Bool.and_eq_true] at h
    exact h.1.1

theorem every_of_mem {c : Checks} {ss : List Stmt} {s : Stmt} (h : everyList c ss = true)
    (hs : s ∈ ss) : s.every c = true := by
  induction ss with
  | nil => cases hs
  | cons t ss ih =>
    rw [everyList, Bool.and_eq_true] at h
    rcases List.mem_cons.mp hs with rfl | hs
    · exact h.1
    · exact ih h.2 hs

/-! ### Settling -/

/-- The statements of a list, with the comments that lead none of them as an empty
statement. -/
def withDangling (list : List Stmt × List Comment) : List Stmt := list.1 ++ dangling list.2

mutual

/-- The statement led by the given comments, with the comments within it settled. -/
def settle (k : List Comment) : Stmt → Stmt
  | leaf _ l => leaf k l
  | block _ body => block k (withDangling (settleFrom [] body))
  | «while» _ cond body => «while» k cond (withDangling (settleFrom [] body))
  | conditional _ cond body elseifs otherwise =>
    conditional k cond (withDangling (settleFrom [] body)) (settleClauses elseifs)
      (settleOtherwise otherwise)
  | switch _ subject cases => switch k subject (settleCases [] cases)
termination_by structural s => s

/-- The statements that are not empty, each led by its own comments and by those
before it that led none, and the comments that are left over in the end.  The
pending comments stand before the list. -/
def settleFrom (pending : List Comment) : List Stmt → List Stmt × List Comment
  | [] => ([], pending)
  | s :: ss =>
    if s.isNop then settleFrom (pending ++ s.comments) ss
    else
      (s.settle (pending ++ s.comments) :: (settleFrom [] ss).1, (settleFrom [] ss).2)
termination_by structural ss => ss

/-- The clauses with the comments within them settled. -/
def settleClauses : List (Clause Stmt) → List (Clause Stmt)
  | [] => []
  | ⟨k, cond, body⟩ :: clauses =>
    ⟨k, cond, withDangling (settleFrom [] body)⟩ :: settleClauses clauses
termination_by structural clauses => clauses

/-- The `else` clause with the comments within it settled. -/
def settleOtherwise : Option (Otherwise Stmt) → Option (Otherwise Stmt)
  | none => none
  | some ⟨k, body⟩ => some ⟨k, withDangling (settleFrom [] body)⟩
termination_by structural otherwise => otherwise

/-- The cases with the comments within them settled; what is left over of one leads
the next.  The pending comments stand before the first. -/
def settleCases (pending : List Comment) : List (Case Stmt) → List (Case Stmt)
  | [] => []
  | ⟨k, key, body⟩ :: cases =>
    if cases.isEmpty then [⟨pending ++ k, key, withDangling (settleFrom [] body)⟩]
    else ⟨pending ++ k, key, (settleFrom [] body).1⟩ :: settleCases (settleFrom [] body).2 cases
termination_by structural cases => cases

end

/-! ### Settled trees -/

/-- The last statement of the list is empty. -/
def endsInNop (body : List Stmt) : Bool := body.getLast?.any isNop

mutual

/-- Within the statement, every empty statement carries comments, is the last of its
list and does not end a case that another one follows. -/
def settled : Stmt → Bool
  | leaf _ _ => true
  | block _ body => settledList body
  | «while» _ _ body => settledList body
  | conditional _ _ body elseifs otherwise =>
    settledList body && settledClauses elseifs && settledOtherwise otherwise
  | switch _ _ cases => settledCases cases
termination_by structural s => s

/-- The same for the statements of a list. -/
def settledList : List Stmt → Bool
  | [] => true
  | s :: ss =>
    if s.isNop then !s.comments.isEmpty && ss.isEmpty else s.settled && settledList ss
termination_by structural ss => ss

/-- The same for the bodies of clauses. -/
def settledClauses : List (Clause Stmt) → Bool
  | [] => true
  | ⟨_, _, body⟩ :: clauses => settledList body && settledClauses clauses
termination_by structural clauses => clauses

/-- The same for the body of an `else` clause. -/
def settledOtherwise : Option (Otherwise Stmt) → Bool
  | none => true
  | some ⟨_, body⟩ => settledList body
termination_by structural otherwise => otherwise

/-- The same for the bodies of cases. -/
def settledCases : List (Case Stmt) → Bool
  | [] => true
  | ⟨_, _, body⟩ :: cases =>
    settledList body && (cases.isEmpty || !endsInNop body) && settledCases cases
termination_by structural cases => cases

end

/-! ### Settled trees are those that stay -/

@[simp] theorem isNop_settle (k : List Comment) (s : Stmt) : (s.settle k).isNop = s.isNop := by
  cases s with
  | leaf _ l => cases l <;> rfl
  | _ => rfl

theorem eq_leaf_of_isNop {s : Stmt} (h : s.isNop = true) : s = leaf s.comments .nop := by
  cases s with
  | leaf k l => cases l <;> first | rfl | cases h
  | _ => cases h

/-- No empty statement is left among the settled ones. -/
theorem isNop_of_mem_settleFrom (ss : List Stmt) : ∀ pending, ∀ s ∈ (settleFrom pending ss).1,
    s.isNop = false := by
  induction ss with
  | nil =>
    intro pending s hs
    cases hs
  | cons t ss ih =>
    intro pending s hs
    rw [settleFrom] at hs
    split at hs
    · exact ih _ s hs
    · next ht =>
      rcases List.mem_cons.mp hs with rfl | hs
      · rw [isNop_settle]
        simpa using ht
      · exact ih _ s hs

/-- A body is left as it is without leaving comments over exactly when it is left as
it is and does not end in an empty statement. -/
theorem settleFrom_eq_iff (body : List Stmt) :
    (settleFrom [] body).1 = body ∧ (settleFrom [] body).2 = [] ↔
      withDangling (settleFrom [] body) = body ∧ endsInNop body = false := by
  constructor
  · rintro ⟨hbody, hrest⟩
    refine ⟨?_, ?_⟩
    · rw [withDangling, hrest, hbody]
      exact List.append_nil body
    · rw [endsInNop, Option.any_eq_false]
      intro s hs
      have hmem := List.mem_of_getLast? hs
      rw [← hbody] at hmem
      simp [isNop_of_mem_settleFrom body [] s hmem]
  · rintro ⟨hbody, hends⟩
    have hrest : (settleFrom [] body).2 = [] := by
      rw [← hbody, withDangling] at hends
      cases hrest : (settleFrom [] body).2 with
      | nil => rfl
      | cons c k => simp [endsInNop, hrest, dangling, isNop] at hends
    rw [withDangling, hrest] at hbody
    exact ⟨by simpa [dangling] using hbody, hrest⟩

/-- An empty statement is left as it is exactly when it carries comments and nothing
follows it. -/
theorem withDangling_nop_eq_iff {s : Stmt} (hs : s.isNop = true) (ss : List Stmt) :
    withDangling (settleFrom [] (s :: ss)) = s :: ss ↔ s.comments ≠ [] ∧ ss = [] := by
  rw [settleFrom, if_pos hs, List.nil_append, withDangling]
  constructor
  · intro h
    -- the first of the settled statements would not be empty
    have hnil : (settleFrom s.comments ss).1 = [] := by
      cases hvs : (settleFrom s.comments ss).1 with
      | nil => rfl
      | cons v vs =>
        have hv := isNop_of_mem_settleFrom ss s.comments v (by simp [hvs])
        rw [hvs, List.cons_append, List.cons.injEq] at h
        rw [h.1, hs] at hv
        cases hv
    rw [hnil, List.nil_append, dangling] at h
    split at h
    · cases h
    · next hk =>
      rw [List.cons.injEq] at h
      obtain ⟨h, rfl⟩ := h
      have hcomments : s.comments = (settleFrom s.comments []).2 := rfl
      rw [← hcomments, List.isEmpty_iff] at hk
      exact ⟨hk, rfl⟩
  · rintro ⟨hk, rfl⟩
    have heq := eq_leaf_of_isNop hs
    simp only [settleFrom, dangling, List.isEmpty_iff, hk, if_false, List.nil_append, ← heq]

mutual

/-- **A statement is left as it is exactly when it is settled.** -/
theorem settle_eq_iff : ∀ s : Stmt, s.settle s.comments = s ↔ s.settled = true
  | leaf k l => by simp [settle, settled, comments]
  | block k body => by simp [settle, settled, comments, withDangling_eq_iff body]
  | «while» k cond body => by simp [settle, settled, comments, withDangling_eq_iff body]
  | conditional k cond body elseifs otherwise => by
    simp [settle, settled, comments, withDangling_eq_iff body, settleClauses_eq_iff elseifs,
      settleOtherwise_eq_iff otherwise, and_assoc]
  | switch k subject cases => by
    simp [settle, settled, comments, settleCases_eq_iff cases]

theorem withDangling_eq_iff : ∀ ss : List Stmt,
    withDangling (settleFrom [] ss) = ss ↔ settledList ss = true
  | [] => by simp [settleFrom, settledList, withDangling, dangling]
  | s :: ss => by
    rcases Bool.eq_false_or_eq_true s.isNop with hs | hs
    · rw [withDangling_nop_eq_iff hs, settledList, if_pos hs]
      simp
    · have hlist := withDangling_eq_iff ss
      have hstmt := settle_eq_iff s
      rw [withDangling] at hlist
      simp [settleFrom, settledList, withDangling, hs, hlist, hstmt]

theorem settleClauses_eq_iff : ∀ clauses : List (Clause Stmt),
    settleClauses clauses = clauses ↔ settledClauses clauses = true
  | [] => by simp [settleClauses, settledClauses]
  | ⟨k, cond, body⟩ :: clauses => by
    simp [settleClauses, settledClauses, withDangling_eq_iff body, settleClauses_eq_iff clauses]

theorem settleOtherwise_eq_iff : ∀ otherwise : Option (Otherwise Stmt),
    settleOtherwise otherwise = otherwise ↔ settledOtherwise otherwise = true
  | none => by simp [settleOtherwise, settledOtherwise]
  | some ⟨k, body⟩ => by simp [settleOtherwise, settledOtherwise, withDangling_eq_iff body]

theorem settleCases_eq_iff : ∀ (cases : List (Case Stmt)) (pending : List Comment),
    settleCases pending cases = cases ↔
      (cases = [] ∨ pending = []) ∧ settledCases cases = true
  | [], pending => by simp [settleCases, settledCases]
  | ⟨k, key, body⟩ :: [], pending => by
    simp [settleCases, settledCases, withDangling_eq_iff body]
  | ⟨k, key, body⟩ :: c :: cases, pending => by
    have hcases := settleCases_eq_iff (c :: cases) (settleFrom [] body).2
    have hbody := settleFrom_eq_iff body
    rw [withDangling_eq_iff body] at hbody
    have hstep : settleCases pending (⟨k, key, body⟩ :: c :: cases) =
        ⟨pending ++ k, key, (settleFrom [] body).1⟩ ::
          settleCases (settleFrom [] body).2 (c :: cases) := rfl
    have hsettled : settledCases (⟨k, key, body⟩ :: c :: cases) =
        (settledList body && !endsInNop body && settledCases (c :: cases)) := rfl
    rw [hstep, hsettled, List.cons.injEq, Case.mk.injEq, hcases, Bool.and_eq_true,
      Bool.and_eq_true, Bool.not_eq_true', ← hbody]
    simp only [List.append_left_eq_self, reduceCtorEq, false_or, true_and]
    constructor
    · rintro ⟨⟨hpending, hfirst⟩, hrest, hothers⟩
      exact ⟨hpending, ⟨hfirst, hrest⟩, hothers⟩
    · rintro ⟨hpending, ⟨hfirst, hrest⟩, hothers⟩
      exact ⟨⟨hpending, hfirst⟩, hrest, hothers⟩

end

end Stmt

/-! ### Programs -/

namespace Program

/-- All parts of the program pass their checks. -/
def every (c : Checks) (p : Program) : Bool := Stmt.everyList c p.stmts

/-- The program with its comments settled. -/
def settle (p : Program) : Program :=
  { p with stmts := Stmt.withDangling (Stmt.settleFrom [] p.stmts) }

/-- Every empty statement of the program carries comments, is the last of its list
and does not end a case that another one follows. -/
def settled (p : Program) : Bool := Stmt.settledList p.stmts

/-- A program is left as it is exactly when it is settled. -/
theorem settle_eq_iff (p : Program) : p.settle = p ↔ p.settled = true := by
  obtain ⟨openTag, stmts⟩ := p
  simp [settle, settled, Stmt.withDangling_eq_iff]

end Program

end Casework
