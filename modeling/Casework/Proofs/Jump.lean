import Casework.Proofs.Nesting

/-!
# What jumps leave

A `break` or `continue` acts on the innermost loop or switch around it.  Dispatching
looks at a conditional alone and not at what stands around it, and the switch that it
makes is one more statement that a jump may act on.  So a jump in a branch is
captured by the switch that its conditional becomes, while any other jump acts on
what it acted on before.

To tell which statement is which before and after, statements have addresses: the
way down to them, segment by segment.  A dispatched statement keeps its address.

## Main definitions

* `Address`, `Stmt.at?`, `Program.at?` — the statement at an address.
* `around` — the addresses of the statements around one.
* `Program.governor?` — the loop or switch that a jump acts on.
* `Program.captor?` — the same if conditionals are taken for switches.

## Main results

* `Stmt.at?_dispatch` — a dispatched statement keeps its address.
* `Stmt.innermost?_dispatch` — what stands around it keeps its place, and conditionals
  are switches.
* `Program.governor?_dispatch` — **a jump acts on what it acted on before exactly when
  no conditional stands between them**.
-/

namespace Casework

/-! ### Addresses -/

/-- The way from a statement to one in it: at each step the place of a segment, and the
place of a statement in the segment. -/
abbrev Address := List (Nat × Nat)

/-- The addresses on the way to an address, the innermost first and the address itself
left out. -/
def around (a : Address) : List Address := (List.range a.length).reverse.map a.take

namespace Stmt

/-- The statement at one step from another. -/
def child? (s : Stmt) (step : Nat × Nat) : Option Stmt :=
  s.segments[step.1]?.bind fun g => g.body[step.2]?

/-- The statement at an address. -/
def at? : Stmt → Address → Option Stmt
  | s, [] => some s
  | s, step :: a => (s.child? step).bind fun t => t.at? a

@[simp] theorem at?_nil (s : Stmt) : s.at? [] = some s := rfl

theorem at?_cons (s : Stmt) (step : Nat × Nat) (a : Address) :
    s.at? (step :: a) = (s.child? step).bind fun t => t.at? a := rfl

/-- There is a statement at every address on the way to a statement. -/
theorem exists_at?_take {s t : Stmt} {a : Address} (h : s.at? a = some t) (n : Nat) :
    ∃ u, s.at? (a.take n) = some u := by
  induction a generalizing s n with
  | nil => exact ⟨s, by rw [List.take_nil, at?_nil]⟩
  | cons step a ih =>
    rw [at?_cons, Option.bind_eq_some_iff] at h
    obtain ⟨c, hc, h⟩ := h
    cases n with
    | zero => exact ⟨s, rfl⟩
    | succ n =>
      rw [List.take_succ_cons, at?_cons, hc]
      exact ih h n

theorem exists_at?_of_mem_around {s t : Stmt} {a b : Address} (h : s.at? a = some t)
    (hb : b ∈ around a) : ∃ u, s.at? b = some u := by
  obtain ⟨n, -, rfl⟩ := List.mem_map.mp hb
  exact exists_at?_take h n

/-! ### Addresses of dispatched statements -/

variable {options : SwitchOptions}

theorem child?_dispatch {s t : Stmt} {step : Nat × Nat} (h : s.child? step = some t) :
    (s.dispatch options).value.child? step = some (t.dispatch options).value := by
  unfold child? at h ⊢
  obtain ⟨g, hg, ht⟩ := Option.bind_eq_some_iff.mp h
  have hlt := (List.getElem?_eq_some_iff.mp ht).1
  -- what is added to a segment stands behind its statements, so these keep their places
  have hbody : (g.dispatch options).body[step.2]? = some (t.dispatch options).value := by
    rw [Segment.dispatch, List.getElem?_append_left (by rwa [List.length_map]), List.getElem?_map,
      ht, Option.map_some]
  rw [segments_dispatch, List.getElem?_map, hg]
  exact hbody

/-- A dispatched statement keeps its address. -/
theorem at?_dispatch {s t : Stmt} {a : Address} (h : s.at? a = some t) :
    (s.dispatch options).value.at? a = some (t.dispatch options).value := by
  induction a generalizing s with
  | nil =>
    cases h
    rfl
  | cons step a ih =>
    rw [at?_cons, Option.bind_eq_some_iff] at h
    obtain ⟨c, hc, h⟩ := h
    rw [at?_cons, child?_dispatch hc]
    exact ih h

/-! ### What stands around -/

/-- A jump may act on the statement. -/
def governs : Stmt → Bool
  | «while» .. | switch .. => true
  | _ => false

/-- Of the statements around an address, the address of the innermost that is accepted. -/
def innermost? (s : Stmt) (accepts : Stmt → Bool) (a : Address) : Option Address :=
  (around a).find? fun b => (s.at? b).any accepts

theorem governs_dispatch (s : Stmt) :
    (s.dispatch options).value.governs = (s.governs || s.isConditional) := by
  cases s <;> rfl

theorem isConditional_of_governs {s : Stmt} (h : s.governs = true) : s.isConditional = false := by
  cases s with
  | «while» k cond body => rfl
  | switch k subject cases => rfl
  | _ => cases h

/-- What stands around a statement keeps its place, and conditionals count as switches. -/
theorem innermost?_dispatch {s t : Stmt} {a : Address} (h : s.at? a = some t) :
    (s.dispatch options).value.innermost? governs a =
      s.innermost? (fun u => u.governs || u.isConditional) a := by
  unfold innermost?
  have hmem : ∀ b ∈ around a, ∃ u, s.at? b = some u := fun b => exists_at?_of_mem_around h
  -- only that each address is that of a statement matters from here on
  generalize around a = bs at hmem ⊢
  induction bs with
  | nil => rfl
  | cons b bs ih =>
    obtain ⟨u, hu⟩ := hmem b List.mem_cons_self
    have ih := ih fun c hc => hmem c (List.mem_cons_of_mem b hc)
    rw [List.find?_cons, List.find?_cons, at?_dispatch hu, hu, ih, Option.any_some, Option.any_some,
      governs_dispatch]

/-- The innermost statement that is accepted stays the innermost when fewer are accepted, as
long as it is one of them. -/
theorem innermost?_of_imp {s u : Stmt} {p q : Stmt → Bool} {a b : Address}
    (himp : ∀ t, q t = true → p t = true) (hb : s.innermost? p a = some b) (hu : s.at? b = some u)
    (hq : q u = true) : s.innermost? q a = some b := by
  unfold innermost? at hb ⊢
  rw [List.find?_eq_some_iff_append] at hb ⊢
  obtain ⟨-, inner, outer, heq, hinner⟩ := hb
  refine ⟨by rw [hu]; exact hq, inner, outer, heq, ?_⟩
  -- what stands further in was not accepted before, so it is not now
  intro c hc
  have hc := hinner c hc
  cases ht : s.at? c with
  | none => rfl
  | some t =>
    rw [ht, Option.any_some, Bool.not_eq_true'] at hc
    rw [Option.any_some, Bool.not_eq_true', Bool.eq_false_iff]
    intro hqt
    rw [himp t hqt] at hc
    cases hc

end Stmt

/-! ### Programs -/

namespace Program

variable (p : Program)

/-- The statement at an address of the program, which is taken for one block. -/
def at? (a : Address) : Option Stmt := (Stmt.block [] p.stmts).at? a

/-- The address of the loop or switch that a jump at the given address acts on. -/
def governor? (a : Address) : Option Address :=
  (Stmt.block [] p.stmts).innermost? Stmt.governs a

/-- The address of the innermost loop, switch or conditional around an address. -/
def captor? (a : Address) : Option Address :=
  (Stmt.block [] p.stmts).innermost? (fun s => s.governs || s.isConditional) a

/-- A dispatched statement keeps its address. -/
theorem at?_dispatch (options : SwitchOptions) {p : Program} {a : Address} {s : Stmt}
    (h : p.at? a = some s) :
    (p.dispatch options).value.at? a = some (s.dispatch options).value :=
  Stmt.at?_dispatch h

/-- The innermost loop, switch or conditional is what a jump acts on exactly when it is no
conditional. -/
theorem captor?_eq_governor?_iff {p : Program} {a : Address} {s : Stmt} (h : p.at? a = some s) :
    p.captor? a = p.governor? a ↔
      ∀ b t, p.captor? a = some b → p.at? b = some t → t.isConditional = false := by
  constructor
  · intro heq b t hb ht
    rw [heq] at hb
    have hgoverns := List.find?_some hb
    rw [show (Stmt.block [] p.stmts).at? b = some t from ht] at hgoverns
    exact Stmt.isConditional_of_governs hgoverns
  · intro hno
    cases hcaptor : p.captor? a with
    | none =>
      -- nothing is accepted, so neither is a loop or a switch
      symm
      rw [captor?, Stmt.innermost?, List.find?_eq_none] at hcaptor
      rw [governor?, Stmt.innermost?, List.find?_eq_none]
      intro b hb
      obtain ⟨t, ht⟩ := Stmt.exists_at?_of_mem_around h hb
      have hnone := hcaptor b hb
      rw [ht, Option.any_some, Bool.or_eq_true, not_or] at hnone
      rw [ht, Option.any_some]
      exact hnone.1
    | some b =>
      -- what is found is a loop or a switch, and it stays the innermost among those
      obtain ⟨t, ht⟩ := Stmt.exists_at?_of_mem_around h (List.mem_of_find?_eq_some hcaptor)
      have haccepted := List.find?_some hcaptor
      rw [ht, Option.any_some, hno b t hcaptor ht, Bool.or_false] at haccepted
      have himp : ∀ u : Stmt, u.governs = true → (u.governs || u.isConditional) = true := by
        intro u hu
        rw [hu, Bool.true_or]
      exact (Stmt.innermost?_of_imp himp hcaptor ht haccepted).symm

/-- **A jump acts on what it acted on before exactly when no conditional stands between
them.**  Every statement keeps its address, and a jump acts on the innermost of what loops,
switches and conditionals have become. -/
theorem governor?_dispatch (options : SwitchOptions) (a : Address) (k : List Comment) (l : Leaf)
    (h : p.at? a = some (.leaf k l)) :
    (p.dispatch options).value.at? a = some (.leaf k l) ∧
      (∀ b s, p.at? b = some s →
        (p.dispatch options).value.at? b = some (s.dispatch options).value) ∧
      (p.dispatch options).value.governor? a = p.captor? a ∧
      ((p.dispatch options).value.governor? a = p.governor? a ↔
        ∀ b s, p.captor? a = some b → p.at? b = some s → s.isConditional = false) := by
  have hcaptor : (p.dispatch options).value.governor? a = p.captor? a := Stmt.innermost?_dispatch h
  refine ⟨at?_dispatch options h, fun b s hb => at?_dispatch options hb, hcaptor, ?_⟩
  rw [hcaptor]
  exact captor?_eq_governor?_iff h

/-- A `break` out of a loop in a branch still leaves the loop. -/
theorem governor?_dispatch_loop :
    let p : Program := ⟨false, [.conditional [] (.var "a")
      [.while [] (.var "b") [.block [] [.leaf [⟨"// done"⟩] .break]]] [] none]⟩
    let a : Address := [(0, 0), (0, 0), (0, 0), (0, 0)]
    p.at? a = some (.leaf [⟨"// done"⟩] .break) ∧ p.governor? a = some [(0, 0), (0, 0)] ∧
      (p.dispatch ⟨true⟩).value.governor? a = p.governor? a := by
  intro p a
  have hcaptor : p.captor? a = some [(0, 0), (0, 0)] := by decide
  refine ⟨rfl, by decide, (governor?_dispatch p ⟨true⟩ a _ .break rfl).2.2.2.mpr ?_⟩
  intro b s hb hs
  rw [hcaptor] at hb
  cases hb
  cases hs
  rfl

/-- A `break` in a branch leaves the loop around the conditional, and then only the switch. -/
theorem governor?_dispatch_captured :
    let p : Program := ⟨false, [.while [] (.lit (.bool true))
      [.conditional [] (.binary .identical (.var "y") (.lit (.str .single "q")))
        [.leaf [] .break] [] none]]⟩
    let a : Address := [(0, 0), (0, 0), (0, 0)]
    p.at? a = some (.leaf [] .break) ∧
      (p.dispatch ⟨false⟩).value.at? a = some (.leaf [] .break) ∧
      p.governor? a = some [(0, 0)] ∧
      (p.dispatch ⟨false⟩).value.governor? a = some [(0, 0), (0, 0)] ∧
      (p.dispatch ⟨false⟩).value.governor? a ≠ p.governor? a :=
  ⟨rfl, rfl, by decide, by decide, by decide⟩

end Program

end Casework
