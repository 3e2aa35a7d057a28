import Casework.Proofs.Nesting
import Casework.Tree.Same

/-!
# What a chain and its switch run

A chain of conditionals runs the body of the first branch whose condition holds, and
a switch runs from the first case whose key is equal to its subject, on through the
bodies of the cases behind it until a jump.  Where all conditions of a chain ask
whether the same subject is equal to some key, the switch of the chain begins at the
case of the very branch that the chain takes.  When cases are ended, it does not run
beyond that case.

Whether a body ends in a jump is asked from its end, past empty statements, and
running it goes from its front.  Both agree on what matters: a body that is not ended
by a `break` has a jump in it.

## Main definitions

* `throughJump` — the statements that run, up to the first jump.
* `Chain.taken?`, `Chain.run` — the branch that a chain takes, and what it runs.
* `Switch.matched?`, `Switch.entry?`, `Switch.run` — the case whose key is equal to
  the subject, the case that a switch begins at, and what it runs.
* `Chain.Compares` — all conditions compare the same subject by `==`.

## Main results

* `Chain.matched?_toSwitch`, `Chain.entry?_toSwitch` — the switch begins at the case
  of the branch that is taken.
* `Chain.run_toSwitch` — an ended case runs as its branch, but for one `break`.
* `Chain.toSwitch_selects` — **a switch runs what its chain runs**.
-/

namespace Casework

/-! ### Running statements -/

/-- The statements up to the first jump, which still runs. -/
def throughJump : List Stmt → List Stmt
  | [] => []
  | s :: ss => if s.isJump then [s] else s :: throughJump ss

/-- Nothing runs behind a jump. -/
theorem throughJump_append_of_any {ss : List Stmt} (h : ss.any Stmt.isJump = true)
    (others : List Stmt) : throughJump (ss ++ others) = throughJump ss := by
  induction ss with
  | nil => cases h
  | cons s ss ih =>
    rw [List.cons_append, throughJump, throughJump]
    by_cases hs : s.isJump = true
    · rw [if_pos hs, if_pos hs]
    · rw [List.any_cons, Bool.or_eq_true] at h
      rw [if_neg hs, if_neg hs, ih (h.resolve_left hs)]

/-- Without a jump all statements run, and so do those behind them. -/
theorem throughJump_append_of_not_any {ss : List Stmt} (h : ss.any Stmt.isJump = false)
    (others : List Stmt) : throughJump (ss ++ others) = throughJump ss ++ throughJump others := by
  induction ss with
  | nil => rfl
  | cons s ss ih =>
    rw [List.any_cons, Bool.or_eq_false_iff] at h
    obtain ⟨hs, hss⟩ := h
    rw [List.cons_append, throughJump, throughJump, hs, ih hss]
    rfl

/-- A body that ends in a jump has a jump in it. -/
theorem any_isJump_of_endsInJump {body : List Stmt} (h : endsInJump body = true) :
    body.any Stmt.isJump = true := by
  rw [endsInJump, Option.any_eq_true] at h
  obtain ⟨s, hs, hjump⟩ := h
  rw [List.any_eq_true]
  exact ⟨s, List.mem_reverse.mp (List.mem_of_find?_eq_some hs), hjump⟩

/-- The body of an ended case runs by itself, whatever stands behind it: up to its own
jump, or to the `break` that ends it. -/
theorem throughJump_ended {options : SwitchOptions} (h : options.terminate = true)
    (body others : List Stmt) :
    throughJump (body ++ ending options body ++ others) =
      throughJump body ++ if body.any Stmt.isJump then [] else [.leaf [] .break] := by
  by_cases hjump : body.any Stmt.isJump = true
  · rw [if_pos hjump, List.append_nil, List.append_assoc, throughJump_append_of_any hjump]
  · have hnone : body.any Stmt.isJump = false := by simpa using hjump
    -- no jump at all is no jump at the end
    have hend : endsInJump body = false := by
      rw [Bool.eq_false_iff]
      exact fun hend => hjump (any_isJump_of_endsInJump hend)
    rw [if_neg hjump, ending, h, hend, List.append_assoc, throughJump_append_of_not_any hnone]
    rfl

/-! ### Which branch, and which case -/

/-- The index of the branch that is taken, when conditions hold as given. -/
def Chain.taken? (holds : Expr → Bool) (chain : Chain) : Option Nat :=
  chain.branches.findIdx? fun b => holds b.cond

/-- The body that the chain selects: that of the first branch whose condition holds, and
otherwise that of the `else` clause, if there is one. -/
def Chain.selected (holds : Expr → Bool) (chain : Chain) : List Stmt :=
  match chain.branches.find? fun b => holds b.cond with
  | some b => b.body
  | none => (chain.otherwise.map Otherwise.body).getD []

/-- The statements that the chain runs. -/
def Chain.run (holds : Expr → Bool) (chain : Chain) : List Stmt :=
  throughJump (chain.selected holds)

/-- The index of the first case whose key is equal to the subject. -/
def Switch.matched? (eq : Expr → Expr → Bool) (switch : Switch) : Option Nat :=
  switch.cases.findIdx? fun c => c.key.any (eq switch.subject)

/-- The index of the case that the switch begins at: the first whose key is equal to the
subject, and otherwise the default case, if there is one. -/
def Switch.entry? (eq : Expr → Expr → Bool) (switch : Switch) : Option Nat :=
  (switch.matched? eq).or (switch.cases.findIdx? fun c => c.key.isNone)

/-- The statements that the switch runs: the bodies from the case it begins at on. -/
def Switch.run (eq : Expr → Expr → Bool) (switch : Switch) : List Stmt :=
  match switch.entry? eq with
  | some i => throughJump ((switch.cases.drop i).flatMap Case.body)
  | none => []

/-- Every condition of the chain asks whether the subject is equal to some key. -/
def Chain.Compares (subject : Expr) (chain : Chain) : Prop :=
  ∀ b ∈ chain.branches, ∃ key, b.cond = .binary .equal subject key

namespace Chain

variable {chain : Chain} {subject : Expr} {eq : Expr → Expr → Bool} {holds : Expr → Bool}
  (options : SwitchOptions)

/-- A chain takes the first branch whose condition holds, or none. -/
theorem taken?_cases (holds : Expr → Bool) (chain : Chain) :
    (∃ before b behind, chain.branches = before ++ b :: behind ∧
        chain.taken? holds = some before.length ∧ chain.selected holds = b.body) ∨
      chain.taken? holds = none ∧
        chain.selected holds = (chain.otherwise.map Otherwise.body).getD [] := by
  unfold taken? selected
  cases h : chain.branches.find? fun b => holds b.cond with
  | some b =>
    obtain ⟨hb, before, behind, hsplit, hbefore⟩ := List.find?_eq_some_iff_append.mp h
    have hnone : before.findIdx? (fun b => holds b.cond) = none := by
      rw [List.findIdx?_eq_none_iff]
      intro a ha
      simpa using hbefore a ha
    refine Or.inl ⟨before, b, behind, hsplit, ?_, rfl⟩
    rw [hsplit, List.findIdx?_append, hnone, List.findIdx?_cons, if_pos hb]
    simp
  | none =>
    refine Or.inr ⟨?_, rfl⟩
    rw [List.findIdx?_eq_none_iff]
    intro b hb
    simpa using List.find?_eq_none.mp h b hb

theorem Compares.subject_toSwitch (h : chain.Compares subject) (hne : chain.branches ≠ []) :
    (chain.toSwitch options).value.subject = subject := by
  obtain ⟨b, bs, hbranches⟩ := List.exists_cons_of_ne_nil hne
  obtain ⟨key, hkey⟩ := h b (by simp [hbranches])
  show (((chain.branches.map Clause.cond).head?.map Discriminant.of).getD .truthy).expr = subject
  rw [hbranches, List.map_cons, List.head?_cons, hkey]
  rfl

/-- The case of a branch stands where the branch stands. -/
theorem Compares.getElem?_cases (h : chain.Compares subject) {i : Nat} {b : Clause Stmt}
    (hb : chain.branches[i]? = some b) : ∃ key, b.cond = .binary .equal subject key ∧
      (chain.toSwitch options).value.cases[i]? = some (b.toCase options key) := by
  obtain ⟨key, hkey⟩ := h b (List.mem_of_getElem? hb)
  refine ⟨key, hkey, ?_⟩
  have hlt : i < chain.branches.length := (List.getElem?_eq_some_iff.mp hb).1
  rw [cases_toSwitch, List.getElem?_append_left (by simpa using hlt), List.getElem?_map, hb,
    Option.map_some, hkey]
  rfl

/-- The default case stands behind those of the branches. -/
theorem getElem?_length_cases (chain : Chain) :
    (chain.toSwitch options).value.cases[chain.branches.length]? =
      chain.otherwise.map Otherwise.toCase := by
  rw [cases_toSwitch, List.getElem?_append_right (by simp)]
  cases chain.otherwise <;> simp

/-- The key of a branch is equal to the subject exactly when the condition of the branch
holds, so the first such case is the case of the branch that is taken. -/
theorem matched?_toSwitch (h : chain.Compares subject) (hne : chain.branches ≠ [])
    (heq : ∀ a b, holds (.binary .equal a b) = eq a b) :
    (chain.toSwitch options).value.matched? eq = chain.taken? holds := by
  have hbranch : ∀ b ∈ chain.branches,
      (b.toCase options b.cond.key).key.any (eq subject) = holds b.cond := by
    intro b hb
    obtain ⟨key, hkey⟩ := h b hb
    rw [hkey, heq]
    rfl
  have hbranches : ∀ bs : List (Clause Stmt), (∀ b ∈ bs, b ∈ chain.branches) →
      (bs.map fun b => b.toCase options b.cond.key).findIdx? (fun c => c.key.any (eq subject)) =
        bs.findIdx? fun b => holds b.cond := by
    intro bs hbs
    induction bs with
    | nil => rfl
    | cons b bs ih =>
      rw [List.map_cons, List.findIdx?_cons, List.findIdx?_cons, hbranch b (hbs b (by simp)),
        ih fun b hb => hbs b (List.mem_cons_of_mem _ hb)]
  -- the default case has no key
  have hdefault : (chain.otherwise.map Otherwise.toCase).toList.findIdx?
      (fun c => c.key.any (eq subject)) = none := by
    cases chain.otherwise <;> rfl
  rw [Switch.matched?, h.subject_toSwitch options hne, cases_toSwitch, List.findIdx?_append,
    hbranches _ fun _ hb => hb, hdefault, Option.map_none, Option.or_none]
  rfl

/-- The switch begins at the case of the branch that is taken, and at the default case
when none is. -/
theorem entry?_toSwitch (h : chain.Compares subject) (hne : chain.branches ≠ [])
    (heq : ∀ a b, holds (.binary .equal a b) = eq a b) :
    (chain.toSwitch options).value.entry? eq =
      (chain.taken? holds).or (chain.otherwise.map fun _ => chain.branches.length) := by
  have hkeyed : (chain.branches.map fun b => b.toCase options b.cond.key).findIdx?
      (fun c => c.key.isNone) = none := by
    rw [List.findIdx?_eq_none_iff]
    intro c hc
    obtain ⟨b, -, rfl⟩ := List.mem_map.mp hc
    rfl
  rw [Switch.entry?, matched?_toSwitch options h hne heq, cases_toSwitch, List.findIdx?_append,
    hkeyed]
  congr 1
  cases chain.otherwise with
  | none => rfl
  | some o => simp [Otherwise.toCase]

/-- When cases are ended, the switch runs what the chain runs, and a `break` behind it where
a branch without a jump is taken. -/
theorem run_toSwitch (h : chain.Compares subject) (hne : chain.branches ≠ [])
    (heq : ∀ a b, holds (.binary .equal a b) = eq a b) (hend : options.terminate = true) :
    (chain.toSwitch options).value.run eq = chain.run holds ++
      if (chain.taken? holds).isSome && !(chain.selected holds).any Stmt.isJump
      then [.leaf [] .break] else [] := by
  rw [Switch.run, entry?_toSwitch options h hne heq, run]
  rcases taken?_cases holds chain with ⟨before, b, behind, hsplit, htaken, hbody⟩ | ⟨htaken, hbody⟩
  · -- what stands behind the case of the branch is never run
    have hdrop : (chain.toSwitch options).value.cases.drop before.length =
        b.toCase options b.cond.key :: (behind.map (fun b => b.toCase options b.cond.key) ++
          (chain.otherwise.map Otherwise.toCase).toList) := by
      rw [cases_toSwitch, hsplit, List.map_append, List.append_assoc, List.drop_left' (by simp)]
      rfl
    have hcase : (b.toCase options b.cond.key).body = b.body ++ ending options b.body :=
      caseBody_eq options b.body
    rw [htaken, hbody, Option.some_or]
    dsimp only
    rw [hdrop, List.flatMap_cons, hcase, throughJump_ended hend]
    cases b.body.any Stmt.isJump <;> rfl
  · rw [htaken, hbody, Option.none_or]
    cases hotherwise : chain.otherwise with
    | none => rfl
    | some o =>
      have hdrop : (chain.toSwitch options).value.cases.drop chain.branches.length =
          [o.toCase] := by
        rw [cases_toSwitch, List.drop_left' (by simp), hotherwise]
        rfl
      dsimp only [Option.map_some]
      rw [hdrop]
      simp [Otherwise.toCase]

/-- **A switch runs what its chain runs.**  Where all conditions of a chain compare one
subject by `==`, whatever this means, the switch of the chain is on that subject; the
first case whose key is equal to it stands where the branch that is taken stands, and is
the case of that branch; the switch begins there, or at the default case when no branch
is taken.  When cases are ended, it runs the selected body up to its first jump, with at
most one more `break` behind it. -/
theorem toSwitch_selects (chain : Chain) (subject : Expr) (eq : Expr → Expr → Bool)
    (holds : Expr → Bool) (options : SwitchOptions) (hne : chain.branches ≠ [])
    (h : chain.Compares subject) (heq : ∀ a b, holds (.binary .equal a b) = eq a b) :
    let switch := (chain.toSwitch options).value
    switch.subject = subject ∧
      switch.matched? eq = chain.taken? holds ∧
      switch.entry? eq =
        (chain.taken? holds).or (chain.otherwise.map fun _ => chain.branches.length) ∧
      (∀ (i : Nat) (b : Clause Stmt), chain.branches[i]? = some b →
        ∃ key, b.cond = .binary .equal subject key ∧
          switch.cases[i]? = some (b.toCase options key)) ∧
      switch.cases[chain.branches.length]? = chain.otherwise.map Otherwise.toCase ∧
      (options.terminate = true → switch.run eq = chain.run holds ++
        if (chain.taken? holds).isSome && !(chain.selected holds).any Stmt.isJump
        then [.leaf [] .break] else []) :=
  ⟨h.subject_toSwitch options hne, matched?_toSwitch options h hne heq,
    entry?_toSwitch options h hne heq, fun _ _ hb => h.getElem?_cases options hb,
    getElem?_length_cases options chain, run_toSwitch options h hne heq⟩

/-- The second of two branches is taken; its body has no jump and ends in a comment. -/
theorem toSwitch_selects_second :
    let two := Expr.lit (.int 2)
    let body := [Stmt.leaf [] (.expr two), .leaf [⟨"// two"⟩] .nop]
    let chain : Chain :=
      ⟨[⟨[], .binary .equal (.var "x") (.lit (.int 1)), [.leaf [] .break]⟩,
        ⟨[], .binary .equal (.var "x") two, body⟩], some ⟨[], [.leaf [] .continue]⟩⟩
    let eq : Expr → Expr → Bool := fun _ key => decide (key = two)
    let switch := (chain.toSwitch ⟨true⟩).value
    switch.subject = .var "x" ∧ switch.matched? eq = some 1 ∧ switch.entry? eq = some 1 ∧
      switch.run eq = body ++ [.leaf [] .break] := by
  intro two body chain eq switch
  let holds : Expr → Bool := fun cond => decide (cond.key = two)
  have hcompares : chain.Compares (.var "x") := by
    intro b hb
    simp only [chain, List.mem_cons, List.not_mem_nil, or_false] at hb
    rcases hb with rfl | rfl <;> exact ⟨_, rfl⟩
  obtain ⟨hsubject, hmatched, hentry, -, -, hrun⟩ :=
    toSwitch_selects chain (.var "x") eq holds ⟨true⟩ (by simp [chain]) hcompares fun _ _ => rfl
  have htaken : chain.taken? holds = some 1 := by decide
  refine ⟨hsubject, hmatched.trans htaken, hentry.trans (by rw [htaken]; rfl), ?_⟩
  exact (hrun rfl).trans (by rfl)

end Chain

end Casework
