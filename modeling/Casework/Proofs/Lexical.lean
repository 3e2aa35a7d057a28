import Casework.Proofs.Conserve
import Casework.Proofs.Valid
import Casework.Tree.Same

/-!
# Every part of what is read

Programs and expressions that are read pass the checks on their parts.  Here this is
told part by part: each subexpression of the tree, each leaf and each comment is one
that a text can stand for.  The checks on a tree are the same as checks on its
listing, and the checks on an expression reach all subexpressions of it.

## Main definitions

* `Expr.subexprs`, `Program.exprs` — all subexpressions, those in the arms of a
  `match` included.
* `Expr.IsWritten` — the expression itself is one that a text can stand for.
* `Node.passes` — what is asked of one node of a listing.

## Main results

* `Stmt.every_eq_all` — checks on a tree are checks on its listing.
* `Expr.isWritten_of_mem_subexprs` — all subexpressions of a valid expression are
  written.
* `isWritten_of_parse` — **every part of what is read can be written**.
-/

namespace Casework

/-! ### Subexpressions -/

namespace Expr

mutual

/-- The expression and all expressions in it. -/
def subexprs : Expr → List Expr
  | var x => [var x]
  | name x => [name x]
  | lit l => [lit l]
  | array items => array items :: subexprsList items
  | binary op a b => binary op a b :: (a.subexprs ++ b.subexprs)
  | unary op a => unary op a :: a.subexprs
  | assign a b => assign a b :: (a.subexprs ++ b.subexprs)
  | ternary a b c => ternary a b c :: (a.subexprs ++ (b.subexprs ++ c.subexprs))
  | call f args => call f args :: (f.subexprs ++ subexprsList args)
  | index a i => index a i :: (a.subexprs ++ i.subexprs)
  | prop a x => prop a x :: a.subexprs
  | «match» subject arms => «match» subject arms :: (subject.subexprs ++ subexprsArms arms)
termination_by structural e => e

/-- The same for the expressions of a list. -/
def subexprsList : List Expr → List Expr
  | [] => []
  | e :: es => e.subexprs ++ subexprsList es
termination_by structural es => es

/-- The same for the conditions of an arm. -/
def subexprsConds : Option (List Expr) → List Expr
  | none => []
  | some es => subexprsList es
termination_by structural conds => conds

/-- The same for the arms of a `match`. -/
def subexprsArms : List (Arm Expr) → List Expr
  | [] => []
  | ⟨_, conds, body⟩ :: arms => subexprsConds conds ++ (body.subexprs ++ subexprsArms arms)
termination_by structural arms => arms

end

/-- The expression itself, whatever its operands are, is one that a text can stand for. -/
def IsWritten : Expr → Prop
  | var x => isIdentifier x = true
  | name x => isName x = true
  | lit (.int n) => 0 ≤ n.toInt ∧ n.toInt ≤ 2 ^ 63 - 1
  | lit (.float (.finite negative _)) => negative = false
  | lit (.float (.infinite negative)) => negative = false
  | lit (.float .nan) => False
  | lit (.str q raw) => wellEscaped q.mark raw.toList = true
  | prop _ x => isIdentifier x = true
  | «match» _ _ => False
  | _ => True

/-- A literal that is read is one that a text can stand for. -/
theorem isWritten_lit {l : Literal} (h : l.readable = true) : (lit l).IsWritten := by
  rw [Literal.readable, Bool.or_eq_true, beq_iff_eq] at h
  rcases h with h | rfl
  · cases l with
    | int n =>
      have hnonneg : 0 ≤ n.toInt := of_decide_eq_true h
      have hlt := n.toInt_lt
      exact ⟨hnonneg, by omega⟩
    | float x =>
      cases x with
      | finite negative m =>
        rw [Literal.lexical, Bool.not_eq_true'] at h
        exact h
      -- an infinity has no text of its own; the one that is read is the case below
      | infinite negative => cases h
      | nan => cases h
    | str q raw => exact h
    | bool b => trivial
    | null => trivial
  · rfl

mutual

/-- All subexpressions of a valid expression are written. -/
theorem isWritten_of_mem_subexprs : ∀ e : Expr, e.validBy Literal.readable = true →
    ∀ d ∈ e.subexprs, d.IsWritten
  | var x, h => by
    intro d hd
    obtain rfl := List.mem_singleton.mp hd
    exact h
  | name x, h => by
    intro d hd
    obtain rfl := List.mem_singleton.mp hd
    exact h
  | lit l, h => by
    intro d hd
    obtain rfl := List.mem_singleton.mp hd
    exact isWritten_lit h
  | array items, h => by
    rw [subexprs, List.forall_mem_cons]
    exact ⟨trivial, isWritten_of_mem_subexprsList items h⟩
  | binary op a b, h => by
    rw [validBy, Bool.and_eq_true] at h
    rw [subexprs, List.forall_mem_cons, List.forall_mem_append]
    exact ⟨trivial, isWritten_of_mem_subexprs a h.1, isWritten_of_mem_subexprs b h.2⟩
  | unary op a, h => by
    rw [subexprs, List.forall_mem_cons]
    exact ⟨trivial, isWritten_of_mem_subexprs a h⟩
  | assign a b, h => by
    rw [validBy, Bool.and_eq_true] at h
    rw [subexprs, List.forall_mem_cons, List.forall_mem_append]
    exact ⟨trivial, isWritten_of_mem_subexprs a h.1, isWritten_of_mem_subexprs b h.2⟩
  | ternary a b c, h => by
    rw [validBy, Bool.and_eq_true, Bool.and_eq_true] at h
    rw [subexprs, List.forall_mem_cons, List.forall_mem_append, List.forall_mem_append]
    exact ⟨trivial, isWritten_of_mem_subexprs a h.1.1, isWritten_of_mem_subexprs b h.1.2,
      isWritten_of_mem_subexprs c h.2⟩
  | call f args, h => by
    rw [validBy, Bool.and_eq_true] at h
    rw [subexprs, List.forall_mem_cons, List.forall_mem_append]
    exact ⟨trivial, isWritten_of_mem_subexprs f h.1, isWritten_of_mem_subexprsList args h.2⟩
  | index a i, h => by
    rw [validBy, Bool.and_eq_true] at h
    rw [subexprs, List.forall_mem_cons, List.forall_mem_append]
    exact ⟨trivial, isWritten_of_mem_subexprs a h.1, isWritten_of_mem_subexprs i h.2⟩
  | prop a x, h => by
    rw [validBy, Bool.and_eq_true] at h
    rw [subexprs, List.forall_mem_cons]
    exact ⟨h.2, isWritten_of_mem_subexprs a h.1⟩
  -- a `match` is never valid, so its arms need not be looked at
  | «match» _ _, h => by cases h

theorem isWritten_of_mem_subexprsList : ∀ es : List Expr,
    validListBy Literal.readable es = true → ∀ d ∈ subexprsList es, d.IsWritten
  | [], _ => nofun
  | e :: es, h => by
    rw [validListBy, Bool.and_eq_true] at h
    rw [subexprsList, List.forall_mem_append]
    exact ⟨isWritten_of_mem_subexprs e h.1, isWritten_of_mem_subexprsList es h.2⟩

end

end Expr

/-! ### Expressions of a program -/

/-- The expressions of a leaf. -/
def Leaf.exprs : Leaf → List Expr
  | .echo operands => operands
  | .expr e => [e]
  | .return value => value.toList
  | .break | .continue | .nop => []

/-- The expressions at the head of a node. -/
def Node.exprs : Node → List Expr
  | .stmt (.leaf _ l) => l.exprs
  | .stmt (.while _ cond _) => [cond]
  | .stmt (.switch _ subject _) => [subject]
  | .stmt _ => []
  | .segment g => g.label.toList

/-- All expressions of a program, at any depth. -/
def Program.exprs (p : Program) : List Expr :=
  (p.listing.flatMap Node.exprs).flatMap Expr.subexprs

/-! ### Checks on a listing -/

/-- The head of the node, its comments apart, passes the checks. -/
def Node.headPasses (c : Checks) : Node → Bool
  | .stmt (.leaf _ l) => c.leaf l
  | .stmt (.while _ cond _) => c.expr cond
  | .stmt (.switch _ subject _) => c.expr subject
  | .stmt _ => true
  | .segment g => g.label.all c.expr

/-- The head of the node passes the checks. -/
def Node.passes (c : Checks) (n : Node) : Bool := n.comments.all c.comment && n.headPasses c

theorem Node.passes_segment (c : Checks) (g : Segment) :
    (Node.segment g).passes c = (g.comments.all c.comment && g.label.all c.expr) := rfl

namespace Stmt

variable (c : Checks)

mutual

/-- Checks on a tree are checks on its listing. -/
theorem every_eq_all : ∀ s : Stmt, s.every c = s.listing.all (Node.passes c)
  | leaf k l => by
    rw [every, listing, List.all_cons, List.all_nil, Bool.and_true]
    rfl
  | block k body => by
    rw [every, listing, List.all_cons, List.all_cons, everyList_eq_all body, Node.passes_segment]
    simp [Node.passes, Node.headPasses, Node.comments, comments]
  | «while» k cond body => by
    rw [every, listing, List.all_cons, List.all_cons, everyList_eq_all body, Node.passes_segment]
    simp [Node.passes, Node.headPasses, Node.comments, comments]
  | conditional k cond body elseifs otherwise => by
    rw [every, listing, List.all_cons, List.all_cons, List.all_append, List.all_append,
      everyList_eq_all body, everyClauses_eq_all elseifs, everyOtherwise_eq_all otherwise,
      Node.passes_segment]
    simp [Node.passes, Node.headPasses, Node.comments, comments, Bool.and_assoc]
  | switch k subject cases => by
    rw [every, listing, List.all_cons, everyCases_eq_all cases]
    rfl

theorem everyList_eq_all : ∀ ss : List Stmt, everyList c ss = (listingList ss).all (Node.passes c)
  | [] => rfl
  | s :: ss => by
    rw [everyList, listingList, List.all_append, every_eq_all s, everyList_eq_all ss]

theorem everyClauses_eq_all : ∀ clauses : List (Clause Stmt),
    everyClauses c clauses = (listingClauses clauses).all (Node.passes c)
  | [] => rfl
  | ⟨k, cond, body⟩ :: clauses => by
    rw [everyClauses, listingClauses, List.all_cons, List.all_append, everyList_eq_all body,
      everyClauses_eq_all clauses, Node.passes_segment, Option.all_some, Bool.and_assoc]

theorem everyOtherwise_eq_all : ∀ otherwise : Option (Otherwise Stmt),
    everyOtherwise c otherwise = (listingOtherwise otherwise).all (Node.passes c)
  | none => rfl
  | some ⟨k, body⟩ => by
    rw [everyOtherwise, listingOtherwise, List.all_cons, everyList_eq_all body,
      Node.passes_segment, Option.all_none, Bool.and_true]

theorem everyCases_eq_all : ∀ cases : List (Case Stmt),
    everyCases c cases = (listingCases cases).all (Node.passes c)
  | [] => rfl
  | ⟨k, key, body⟩ :: cases => by
    rw [everyCases, listingCases, List.all_cons, List.all_append, everyList_eq_all body,
      everyCases_eq_all cases, Node.passes_segment, Bool.and_assoc]

end

end Stmt

theorem Program.every_eq_all (c : Checks) (p : Program) :
    p.every c = p.listing.all (Node.passes c) := by
  rw [Program.every, Program.listing, Stmt.everyList_eq_all, Stmt.listingList_eq]

/-! ### What is read -/

/-- The expressions of a valid leaf are valid. -/
theorem Leaf.validBy_of_mem_exprs {accepts : Literal → Bool} {l : Leaf}
    (h : l.validBy accepts = true) : ∀ e ∈ l.exprs, e.validBy accepts = true := by
  intro e he
  cases l with
  | echo operands =>
    rw [Leaf.validBy, Bool.and_eq_true] at h
    exact (Expr.validListBy_iff accepts operands).mp h.2 e he
  | expr d =>
    obtain rfl := List.mem_singleton.mp he
    exact h
  | «return» value =>
    obtain rfl := Option.mem_toList.mp he
    exact h
  | «break» | «continue» | nop => cases he

/-- The expressions of a valid node are valid. -/
theorem Node.validBy_of_mem_exprs {accepts : Literal → Bool} {n : Node}
    (h : n.passes (.validBy accepts) = true) : ∀ e ∈ n.exprs, e.validBy accepts = true := by
  intro e he
  rw [Node.passes, Bool.and_eq_true] at h
  obtain ⟨-, h⟩ := h
  cases n with
  | stmt s =>
    cases s with
    | leaf k l => exact Leaf.validBy_of_mem_exprs h e he
    | «while» k cond body =>
      obtain rfl := List.mem_singleton.mp he
      exact h
    | switch k subject cases =>
      obtain rfl := List.mem_singleton.mp he
      exact h
    | block k body => cases he
    | conditional k cond body elseifs otherwise => cases he
  | segment g =>
    have hlabel : g.label = some e := Option.mem_toList.mp he
    rw [Node.headPasses, hlabel] at h
    exact h

/-- A leaf of a listing is found at the statement that it is. -/
theorem Node.eq_of_mem_leaves {n : Node} {k : List Comment} {l : Leaf} (h : (k, l) ∈ n.leaves) :
    n = .stmt (.leaf k l) := by
  unfold Node.leaves at h
  split at h
  · cases List.mem_singleton.mp h
    rfl
  · cases h

/-- Expressions that are read are valid. -/
theorem Expr.validBy_of_parse {source : String} {e : Expr} (h : Expr.parse source = .ok e) :
    e.validBy Literal.readable = true := by
  unfold Expr.parse at h
  dsimp only at h
  split at h
  · next d rest hread =>
    split at h
    · cases h
      exact Reader.yields_bind (Reader.yields_expr _)
        (fun _ he => Reader.yields_skip fun _ => Reader.yields_pure he) _ _ _ hread
    · cases h
  · cases h
  · cases h

/-- **Every part of what is read can be written**: every expression at any depth of a program
that is read, and of an expression that is read, is one that a text can stand for; every
`echo` has an operand; and every comment is well formed. -/
theorem isWritten_of_parse (source : String) :
    (∀ p, Program.parse source = .ok p →
      (∀ e ∈ p.exprs, e.IsWritten) ∧
        (∀ k operands, (k, Leaf.echo operands) ∈ p.leaves → operands ≠ []) ∧
        ∀ c ∈ p.comments, c.wellFormed = true) ∧
      ∀ e, Expr.parse source = .ok e → ∀ d ∈ e.subexprs, d.IsWritten := by
  constructor
  · intro p hparse
    have hevery := Program.every_of_parse hparse
    rw [Program.every_eq_all, List.all_eq_true] at hevery
    -- from here on each part is looked for at the node where it stands
    refine ⟨?_, ?_, ?_⟩
    · intro e he
      obtain ⟨d, hd, he⟩ := List.mem_flatMap.mp he
      obtain ⟨n, hn, hd⟩ := List.mem_flatMap.mp hd
      exact Expr.isWritten_of_mem_subexprs d (Node.validBy_of_mem_exprs (hevery n hn) d hd) e he
    · intro k operands hecho hempty
      obtain ⟨n, hn, hleaf⟩ := List.mem_flatMap.mp hecho
      obtain rfl := Node.eq_of_mem_leaves hleaf
      have hpasses := hevery _ hn
      rw [Node.passes, Bool.and_eq_true] at hpasses
      obtain ⟨-, hvalid⟩ := hpasses
      rw [hempty] at hvalid
      cases hvalid
    · intro c hc
      obtain ⟨n, hn, hc⟩ := List.mem_flatMap.mp hc
      have hpasses := hevery n hn
      rw [Node.passes, Bool.and_eq_true] at hpasses
      exact List.all_eq_true.mp hpasses.1 c hc
  · intro e hparse
    exact Expr.isWritten_of_mem_subexprs e (Expr.validBy_of_parse hparse)

/-- A comment, a qualified name, a property and a string with an escaped quote. -/
theorem isWritten_of_parse_call :
    let source := "# c \nwhile ($x) echo Nul\\f($x->y, 'it\\'s', 2.50), 9;"
    let callee := Expr.name "Nul\\f"
    let p : Program := ⟨false, [.while [⟨"# c"⟩] (.var "x") [.leaf [] (.echo
      [.call callee [.prop (.var "x") "y", .lit (.str .single "it\\'s"),
        .lit (.float (.ofFraction false 5 2))], .lit (.int 9)])]]⟩
    Program.parse source = .ok p ∧ callee ∈ p.exprs ∧ callee.IsWritten ∧
      (⟨"# c"⟩ : Comment) ∈ p.comments ∧ Comment.wellFormed ⟨"# c"⟩ = true := by
  intro source callee p
  have hread : Program.parse source = .ok p := by decide +kernel
  have hname : callee ∈ p.exprs := by decide +kernel
  have hcomment : (⟨"# c"⟩ : Comment) ∈ p.comments := by decide +kernel
  obtain ⟨hexprs, -, hcomments⟩ := (isWritten_of_parse source).1 p hread
  exact ⟨hread, hname, hexprs callee hname, hcomment, hcomments _ hcomment⟩

end Casework
