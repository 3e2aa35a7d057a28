import Casework.Conversion
import Casework.Proofs.Nesting

/-!
# Dispatching and the conditionals of a program

Dispatching leaves no conditional, and it changes nothing else.  So it changes a
program exactly when there is a conditional in it, and it changes no program that
has been dispatched before, whatever the options.  The search for the first
conditional, which stops at the first that it meets, goes through the same places:
it comes back without one exactly when there is none at any depth.

Three properties of a statement are compared here: there is no conditional in it,
dispatching leaves it as it is, and the search finds nothing in it.  Each is decided
in the same way by the statement itself and the statements in its segments, and
there is only one such property.

## Main definitions

* `Stmt.hasConditional`, `Program.hasConditional` — there is a conditional at some
  depth.
* `Stmt.Descends` — a property fails of conditionals, and is otherwise decided by the
  segments.

## Main results

* `Stmt.iff_of_descends` — there is only one property that descends.
* `Stmt.hasConditional_dispatch` — no conditional is left.
* `Program.dispatch_removes_conditionals` — **dispatching removes exactly the
  conditionals**.
* `toSwitch_eq_format` — a source text without conditionals is only laid out anew.
-/

namespace Casework

/-- The node is a conditional. -/
def Node.isConditional : Node → Bool
  | .stmt s => s.isConditional
  | .segment _ => false

namespace Stmt

/-! ### Properties that descend -/

/-- There is a conditional in the statement, at any depth. -/
def hasConditional (s : Stmt) : Bool := s.listing.any Node.isConditional

/-- The property holds exactly of the statements that are no conditionals and in whose
segments it holds throughout. -/
def Descends (P : Stmt → Prop) : Prop :=
  ∀ s : Stmt, P s ↔ s.isConditional = false ∧ ∀ g ∈ s.segments, ∀ t ∈ g.body, P t

/-- There is only one property that descends. -/
theorem iff_of_descends {P Q : Stmt → Prop} (hP : Descends P) (hQ : Descends Q) (s : Stmt) :
    P s ↔ Q s := by
  induction s using bySegments with
  | step s ih =>
    rw [hP s, hQ s]
    apply and_congr_right
    intro _
    exact forall₂_congr fun g hg => forall₂_congr fun t ht => ih g hg t ht

/-! ### Having no conditional -/

theorem descends_hasConditional : Descends fun s => s.hasConditional = false := by
  intro s
  simp only [hasConditional, listing_eq s, List.any_cons, List.any_flatMap, Segment.listing,
    Bool.or_eq_false_iff, Node.isConditional, List.any_eq_false, Bool.not_eq_true, Bool.false_or]

/-- No conditional is left. -/
theorem hasConditional_dispatch (options : SwitchOptions) (s : Stmt) :
    (s.dispatch options).value.hasConditional = false := by
  induction s using bySegments with
  | step s ih =>
    refine (descends_hasConditional _).mpr ⟨isConditional_dispatch options s, ?_⟩
    rw [segments_dispatch]
    intro g' hg' u hu
    obtain ⟨g, hg, rfl⟩ := List.mem_map.mp hg'
    -- what is in a segment comes from a statement of it, or it is the added `break`
    rcases exists_of_mem_body_dispatch options hu with ⟨t, ht, rfl⟩ | ⟨-, rfl⟩
    · exact ih g hg t ht
    · rfl

/-! ### Being left as it is -/

variable (options : SwitchOptions)

theorem dispatchList_eq_iff (body : List Stmt) :
    (dispatchList options body).value = body ↔ ∀ s ∈ body, (s.dispatch options).value = s := by
  induction body with
  | nil => simp [dispatchList]
  | cons s ss ih =>
    rw [value_dispatchList] at ih ⊢
    rw [List.map_cons, List.cons.injEq, ih, List.forall_mem_cons]

theorem dispatchCases_eq_iff (cases : List (Case Stmt)) :
    (dispatchCases options cases).value = cases ↔
      ∀ c ∈ cases, ∀ s ∈ c.body, (s.dispatch options).value = s := by
  induction cases with
  | nil => simp [dispatchCases]
  | cons c cases ih =>
    obtain ⟨k, key, body⟩ := c
    rw [value_dispatchCases] at ih ⊢
    rw [List.map_cons, List.cons.injEq, ih, List.forall_mem_cons, ← dispatchList_eq_iff,
      Case.mk.injEq]
    simp only [true_and]

theorem descends_dispatch_eq : Descends fun s => (s.dispatch options).value = s := by
  intro s
  cases s with
  | leaf k l => simp [segments, isConditional]
  | block k body =>
    simp only [value_dispatch_block, block.injEq, true_and, dispatchList_eq_iff, segments,
      isConditional, List.forall_mem_singleton]
  | «while» k cond body =>
    simp only [value_dispatch_while, while.injEq, true_and, dispatchList_eq_iff, segments,
      isConditional, List.forall_mem_singleton]
  | conditional k cond body elseifs otherwise =>
    -- a conditional becomes a switch, so it is never left as it is
    refine iff_of_false ?_ fun h => Bool.noConfusion h.1
    intro (h : ((conditional k cond body elseifs otherwise).dispatch options).value = _)
    rw [value_dispatch_conditional] at h
    cases h
  | switch k subject cases =>
    simp only [value_dispatch_switch, switch.injEq, true_and, dispatchCases_eq_iff, segments,
      isConditional, List.forall_mem_map, Case.segment]

/-! ### Being passed over by the search -/

theorem firstChainIn?_eq_none_iff (body : List Stmt) :
    firstChainIn? body = none ↔ ∀ s ∈ body, s.firstChain? = none := by
  rw [firstChainIn?_eq_findSome?, List.findSome?_eq_none_iff]

theorem firstChainInCases?_eq_none_iff (cases : List (Case Stmt)) :
    firstChainInCases? cases = none ↔ ∀ c ∈ cases, ∀ s ∈ c.body, s.firstChain? = none := by
  induction cases with
  | nil => simp [firstChainInCases?]
  | cons c cases ih =>
    rw [firstChainInCases?, Option.or_eq_none_iff, firstChainIn?_eq_none_iff, ih,
      List.forall_mem_cons]

theorem descends_firstChain? : Descends fun s => s.firstChain? = none := by
  intro s
  cases s with
  | leaf k l => simp [firstChain?, segments, isConditional]
  | block k body =>
    simp only [firstChain?, firstChainIn?_eq_none_iff, segments, isConditional,
      List.forall_mem_singleton, true_and]
  | «while» k cond body =>
    simp only [firstChain?, firstChainIn?_eq_none_iff, segments, isConditional,
      List.forall_mem_singleton, true_and]
  | conditional k cond body elseifs otherwise =>
    refine iff_of_false ?_ ?_
    · intro h
      cases h
    · intro h
      cases h.1
  | switch k subject cases =>
    simp only [firstChain?, firstChainInCases?_eq_none_iff, segments, isConditional,
      List.forall_mem_map, Case.segment, true_and]

end Stmt

/-! ### The match of a program -/

/-- The arms of branches fail only because of the shape of a branch. -/
theorem armsFrom_ne_noConditional (n : Nat) (branches : List (Clause Stmt)) :
    armsFrom n branches ≠ .error .noConditional := by
  induction branches generalizing n with
  | nil => nofun
  | cons branch branches ih =>
    intro h
    rw [armsFrom] at h
    cases harm : armOf branch.comments (some branch.cond) branch.body with
    | error shape =>
      -- this branch is the first that cannot be an arm, and the error names it
      rw [harm] at h
      cases h
    | ok arm =>
      rw [harm] at h
      cases harms : armsFrom (n + 1) branches with
      | error e =>
        rw [harms] at h
        cases h
        exact ih (n + 1) harms
      | ok arms =>
        rw [harms] at h
        cases h

theorem Chain.toArms_ne_noConditional (chain : Chain) :
    chain.toArms ≠ .error .noConditional := by
  intro h
  rw [toArms] at h
  cases harms : armsFrom 0 chain.branches with
  | error e =>
    rw [harms] at h
    cases h
    exact armsFrom_ne_noConditional 0 chain.branches harms
  | ok arms =>
    rw [harms] at h
    cases hotherwise : chain.otherwise with
    | none =>
      rw [hotherwise] at h
      cases h
    | some o =>
      rw [hotherwise] at h
      cases harm : armOf o.comments none o.body with
      | error shape =>
        dsimp only at h
        rw [harm] at h
        cases h
      | ok arm =>
        dsimp only at h
        rw [harm] at h
        cases h

namespace Program

variable (p : Program)

/-- There is a conditional in the program, at any depth. -/
def hasConditional : Bool := p.listing.any Node.isConditional

theorem hasConditional_eq_false_iff :
    p.hasConditional = false ↔ ∀ s ∈ p.stmts, s.hasConditional = false := by
  simp only [hasConditional, listing, List.any_flatMap, List.any_eq_false, Bool.not_eq_true,
    Stmt.hasConditional]

theorem dispatch_eq_iff (options : SwitchOptions) :
    (p.dispatch options).value = p ↔ p.hasConditional = false := by
  -- the opening tag is kept anyway, so all is decided by the statements
  have hlist := Stmt.dispatchList_eq_iff options p.stmts
  rw [hasConditional_eq_false_iff]
  constructor
  · intro h s hs
    have hs := hlist.mp (congrArg Program.stmts h) s hs
    exact (Stmt.iff_of_descends Stmt.descends_hasConditional (Stmt.descends_dispatch_eq options)
      s).mpr hs
  · intro h
    have hstmts := hlist.mpr fun s hs =>
      (Stmt.iff_of_descends Stmt.descends_hasConditional (Stmt.descends_dispatch_eq options)
        s).mp (h s hs)
    show ({ p with stmts := (Stmt.dispatchList options p.stmts).value } : Program) = p
    rw [hstmts]

theorem firstChain?_eq_none_iff : p.firstChain? = none ↔ p.hasConditional = false := by
  rw [firstChain?, Stmt.firstChainIn?_eq_none_iff, hasConditional_eq_false_iff]
  apply forall₂_congr
  intro s _
  exact Stmt.iff_of_descends Stmt.descends_firstChain? Stmt.descends_hasConditional s

/-- There is no match for want of a conditional exactly when the search finds none. -/
theorem toMatch_eq_noConditional_iff :
    p.toMatch.value = .error .noConditional ↔ p.firstChain? = none := by
  rw [toMatch]
  cases p.firstChain? with
  | none => exact iff_of_true rfl rfl
  | some found =>
    obtain ⟨k, chain⟩ := found
    refine iff_of_false ?_ nofun
    -- with a conditional found, only its arms can fail, and they fail for another reason
    intro h
    cases harms : chain.toArms with
    | error e =>
      rw [Traced.value_pure, harms] at h
      cases h
      exact chain.toArms_ne_noConditional harms
    | ok arms =>
      rw [Traced.value_pure, harms] at h
      cases h

/-- **Dispatching removes exactly the conditionals**: none is left, a program without any is
left as it is and has no match, and a second time nothing is changed. -/
theorem dispatch_removes_conditionals (o₁ o₂ : SwitchOptions) :
    (p.dispatch o₁).value.hasConditional = false ∧
      ((p.dispatch o₁).value = p ↔ p.hasConditional = false) ∧
      (p.hasConditional = false ↔ p.toMatch.value = .error .noConditional) ∧
      ((p.dispatch o₁).value.dispatch o₂).value = (p.dispatch o₁).value := by
  have hcleared : (p.dispatch o₁).value.hasConditional = false := by
    rw [hasConditional_eq_false_iff]
    intro s (hs : s ∈ (Stmt.dispatchList o₁ p.stmts).value)
    rw [Stmt.value_dispatchList] at hs
    obtain ⟨t, -, rfl⟩ := List.mem_map.mp hs
    exact Stmt.hasConditional_dispatch o₁ t
  refine ⟨hcleared, dispatch_eq_iff p o₁, ?_, ?_⟩
  · rw [toMatch_eq_noConditional_iff, firstChain?_eq_none_iff]
  · exact (dispatch_eq_iff (p.dispatch o₁).value o₂).mpr hcleared

end Program

/-- **A source text without conditionals is only laid out anew**, or the fault in it is
reported. -/
theorem toSwitch_eq_format (options : SwitchOptions) {source : String}
    (h : ∀ p, Program.parse source = .ok p → p.hasConditional = false) :
    (toSwitch options source).value = (format source).mapError .unreadable := by
  rw [toSwitch, format]
  cases hparse : Program.parse source with
  | error fault => rfl
  | ok p =>
    have hsame := (p.dispatch_eq_iff options).mpr (h p hparse)
    show Except.ok (p.dispatch options).value.text = _
    rw [hsame]
    rfl

end Casework
