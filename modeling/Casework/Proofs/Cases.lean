import Mathlib.Data.List.Forall2
import Casework.Proofs.Nesting

/-!
# A case for each clause

The switch of a conditional has one case for each clause, in the order of the text, and
the default case behind them where there is an `else` clause.  Comments stay with their
clause and bodies stay as they are, but for the `break` that is added on request where
control would run on into the next case.  Whether it would is asked from the end of the
body, past the statements that are empty.

So nothing of a conditional but its conditions is changed, and from the switch that is
built without added jumps its clauses are read back.

## Main definitions

* `LeavesByJump` — the last statement of a body that is not empty is a jump.
* `Case.StandsFor` — the case is the one that a clause becomes.
* `Switch.parts` — the bodies of a switch with their comments, and its default case.

## Main results

* `endsInJump_iff` — looking back from the end of a body finds how it is left.
* `Chain.parts_toSwitch` — the clauses are read back from the switch.
* `Chain.toSwitch_caseByCase` — **a conditional becomes a switch case for case**.
-/

namespace Casework

/-! ### How a body is left -/

/-- The statement is a `break`, a `continue` or a `return`. -/
theorem Stmt.isJump_iff {s : Stmt} : s.isJump = true ↔
    ∃ k l, s = .leaf k l ∧ (l = .break ∨ l = .continue ∨ ∃ value, l = .return value) := by
  constructor
  · intro h
    cases s with
    | leaf k l =>
      refine ⟨k, l, rfl, ?_⟩
      cases l with
      | «break» => exact Or.inl rfl
      | «continue» => exact Or.inr (Or.inl rfl)
      | «return» value => exact Or.inr (Or.inr ⟨value, rfl⟩)
      | _ => cases h
    | _ => cases h
  · rintro ⟨k, l, rfl, rfl | rfl | ⟨value, rfl⟩⟩ <;> rfl

/-- The last statement of the body that is not empty is a `break`, a `continue` or a
`return`: whatever stands behind it is empty. -/
def LeavesByJump (body : List Stmt) : Prop :=
  ∃ before k l behind, body = before ++ .leaf k l :: behind ∧
    (l = .break ∨ l = .continue ∨ ∃ value, l = .return value) ∧ ∀ s ∈ behind, s.isNop = true

/-- A jump is not empty. -/
theorem Stmt.isNop_of_isJump {s : Stmt} (h : s.isJump = true) : s.isNop = false := by
  obtain ⟨k, l, rfl, rfl | rfl | ⟨value, rfl⟩⟩ := isJump_iff.mp h <;> rfl

/-- Looking back from the end of a body finds how it is left. -/
theorem endsInJump_iff {body : List Stmt} : endsInJump body = true ↔ LeavesByJump body := by
  rw [endsInJump, Option.any_eq_true]
  constructor
  · rintro ⟨s, hfound, hjump⟩
    obtain ⟨-, behind, before, hsplit, hnop⟩ := List.find?_eq_some_iff_append.mp hfound
    obtain ⟨k, l, rfl, hl⟩ := Stmt.isJump_iff.mp hjump
    refine ⟨before.reverse, k, l, behind.reverse, ?_, hl, ?_⟩
    · rw [← List.reverse_reverse body, hsplit]
      simp
    · intro t ht
      simpa using hnop t (List.mem_reverse.mp ht)
  · rintro ⟨before, k, l, behind, rfl, hl, hnop⟩
    have hjump : (Stmt.leaf k l).isJump = true := Stmt.isJump_iff.mpr ⟨k, l, rfl, hl⟩
    refine ⟨.leaf k l, ?_, hjump⟩
    rw [List.find?_eq_some_iff_append]
    refine ⟨by simp [Stmt.isNop_of_isJump hjump], behind.reverse, before.reverse, ?_, ?_⟩
    · simp
    · intro t ht
      simpa using hnop t (List.mem_reverse.mp ht)

/-! ### The case of a clause -/

/-- The case is the one that the clause becomes: it has the comments of the clause, the key
of its condition, and its body with a `break` behind it exactly when cases are to be ended
and the body is not left by a jump. -/
structure Case.StandsFor (options : SwitchOptions) (clause : Clause Stmt) (case : Case Stmt) :
    Prop where
  comments : case.comments = clause.comments
  key : case.key = some clause.cond.key
  ended : options.terminate = true ∧ ¬ LeavesByJump clause.body →
    case.body = clause.body ++ [.leaf [] .break]
  kept : ¬ (options.terminate = true ∧ ¬ LeavesByJump clause.body) → case.body = clause.body

theorem Clause.standsFor_toCase (options : SwitchOptions) (clause : Clause Stmt) :
    Case.StandsFor options clause (clause.toCase options clause.cond.key) := by
  have hbody : (clause.toCase options clause.cond.key).body =
      clause.body ++ ending options clause.body := caseBody_eq options clause.body
  have hending : (options.terminate && !endsInJump clause.body) = true ↔
      options.terminate = true ∧ ¬ LeavesByJump clause.body := by
    rw [Bool.and_eq_true, Bool.not_eq_true', ← endsInJump_iff, Bool.not_eq_true]
  refine ⟨rfl, rfl, fun h => ?_, fun h => ?_⟩
  · rw [hbody, ending, if_pos (hending.mpr h)]
  · rw [hbody, ending, if_neg fun hend => h (hending.mp hend), List.append_nil]

/-! ### Reading the clauses back -/

/-- The comments and the body of each case with a key, in order, and the default case as an
`else` clause. -/
def Switch.parts (switch : Switch) : List (List Comment × List Stmt) × Option (Otherwise Stmt) :=
  ((switch.cases.filter (·.key.isSome)).map fun c => (c.comments, c.body),
    (switch.cases.find? (·.key.isNone)).map fun c => ⟨c.comments, c.body⟩)

namespace Chain

/-- What a chain is made of is read back from its switch, when nothing was added. -/
theorem parts_toSwitch (chain : Chain) : (chain.toSwitch ⟨false⟩).value.parts =
    (chain.branches.map fun b => (b.comments, b.body), chain.otherwise) := by
  have hkeyed : ∀ branches : List (Clause Stmt),
      (branches.map fun b => b.toCase ⟨false⟩ b.cond.key).filter (·.key.isSome) =
        branches.map fun b => b.toCase ⟨false⟩ b.cond.key := by
    intro branches
    rw [List.filter_eq_self]
    intro c hc
    obtain ⟨b, -, rfl⟩ := List.mem_map.mp hc
    rfl
  have hnone : ∀ branches : List (Clause Stmt),
      (branches.map fun b => b.toCase ⟨false⟩ b.cond.key).find? (·.key.isNone) = none := by
    intro branches
    rw [List.find?_eq_none]
    intro c hc
    obtain ⟨b, -, rfl⟩ := List.mem_map.mp hc
    exact Bool.false_ne_true
  rw [Switch.parts, cases_toSwitch, List.filter_append, hkeyed, List.find?_append, hnone]
  cases hotherwise : chain.otherwise with
  | none => simp [Clause.toCase]
  | some o => simp [Clause.toCase, Otherwise.toCase]

/-- **A conditional becomes a switch case for case.**  The cases with a key stand for the
clauses, one for each and in their order, the first of them without comments; behind them
stands the default case, if there is an `else` clause, with its comments and its body as
they are.  Without added jumps the clauses and the `else` clause are read back. -/
theorem toSwitch_caseByCase (k : List Comment) (cond : Expr) (body : List Stmt)
    (elseifs : List (Clause Stmt)) (otherwise : Option (Otherwise Stmt))
    (options : SwitchOptions) :
    ∃ chain keyed, (Stmt.conditional k cond body elseifs otherwise).chain? = some chain ∧
      (chain.toSwitch options).value.cases =
        keyed ++ (otherwise.map fun o => ⟨o.comments, none, o.body⟩).toList ∧
      keyed.length = elseifs.length + 1 ∧
      List.Forall₂ (Case.StandsFor options) (⟨[], cond, body⟩ :: elseifs) keyed ∧
      (chain.toSwitch ⟨false⟩).value.parts =
        (([], body) :: elseifs.map fun c => (c.comments, c.body), otherwise) := by
  refine ⟨.of cond body elseifs otherwise,
    (⟨[], cond, body⟩ :: elseifs).map fun c => c.toCase options c.cond.key, rfl, ?_, ?_, ?_, ?_⟩
  · exact cases_toSwitch options (.of cond body elseifs otherwise)
  · rw [List.length_map, List.length_cons]
  · rw [List.forall₂_map_right_iff, List.forall₂_same]
    exact fun c _ => c.standsFor_toCase options
  · exact parts_toSwitch (.of cond body elseifs otherwise)

end Chain

end Casework
