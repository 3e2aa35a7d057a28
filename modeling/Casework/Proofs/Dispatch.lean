import Casework.Dispatch
import Casework.Proofs.RoundTrip

/-!
# Dispatched programs read back

Dispatching keeps what is asked of names, literals and comments, so the text of a
dispatched program always reads back, with its comments settled.  Whether it
reads back as the same tree is decided by the branches: a branch that ends in an
empty statement gives its last comments away when another case follows it, or
when a `break` is added behind it.

## Main definitions

* `branchKeeps`, `Stmt.keeps`, `Program.keeps` — no branch of a conditional gives
  comments away when it becomes a case.

## Main results

* `Program.every_dispatch` — checks on all parts survive dispatching.
* `Program.settled_dispatch` — a dispatched program is settled exactly when no
  branch gives comments away.
* `Program.parse_text_dispatch` — **the text of a dispatched program reads back as
  the same tree exactly when no branch gives comments away**.
-/

namespace Casework

/-! ### Keys and subjects -/

/-- An escaped text may stand between single quotes. -/
theorem wellEscaped_escape (text : List Char) : wellEscaped '\'' (Literal.escape text) = true := by
  induction text with
  | nil => rfl
  | cons c text ih =>
    rw [Literal.escape]
    split
    · rw [wellEscaped, ih]
    · next hc =>
      simp only [Bool.or_eq_true, beq_iff_eq, not_or] at hc
      rw [wellEscaped.eq_4, ih, Bool.and_true, bne_iff_ne]
      · exact hc.1
      · exact fun h => absurd h hc.2
      · exact fun _ _ h => absurd h hc.2

/-- A quoted text may stand between its quotes. -/
theorem Literal.lexical_quoted (text : List Char) : (quoted text).lexical = true := by
  show wellEscaped '\'' (String.ofList (escape text)).toList = true
  rw [String.toList_ofList, wellEscaped_escape]

/-- Only a comparison is taken for one. -/
theorem Condition.exists_eq_binary {e a b : Expr} {equality : Equality}
    (h : Condition.of e = .comparison equality a b) : ∃ op, e = .binary op a b := by
  unfold Condition.of at h
  split at h <;> cases h <;> exact ⟨_, rfl⟩

section Checks

variable {accepts : Literal → Bool} {cond : Expr}

/-- The key of a valid condition is valid. -/
theorem Expr.validBy_key (hquoted : ∀ text, accepts (.quoted text) = true)
    (h : cond.validBy accepts = true) : cond.key.validBy accepts = true := by
  unfold Expr.key
  cases hcond : Condition.of cond with
  | comparison equality a b =>
    obtain ⟨op, rfl⟩ := Condition.exists_eq_binary hcond
    rw [Expr.validBy, Bool.and_eq_true] at h
    exact h.2
  | logical connective a b => exact hquoted _
  | other e => exact hquoted _

/-- The subject of a chain that begins with a valid condition is valid. -/
theorem Discriminant.validBy_of (htrue : accepts (.bool true) = true)
    (h : cond.validBy accepts = true) : (Discriminant.of cond).expr.validBy accepts = true := by
  unfold Discriminant.of
  cases hcond : Condition.of cond with
  | comparison equality a b =>
    obtain ⟨op, rfl⟩ := Condition.exists_eq_binary hcond
    rw [Expr.validBy, Bool.and_eq_true] at h
    exact h.1
  | logical connective a b => exact htrue
  | other e => exact htrue

end Checks

/-- Checks that survive dispatching: the keys and the subject made from conditions
that pass do pass, and so does the `break` that ends a case. -/
structure Checks.Dispatches (c : Checks) : Prop where
  key : ∀ e, c.expr e = true → c.expr e.key = true
  subject : ∀ e, c.expr e = true → c.expr (Discriminant.of e).expr = true
  jump : c.leaf .break = true

theorem Checks.dispatches_lexical : Checks.lexical.Dispatches where
  key := fun _ => Expr.validBy_key Literal.lexical_quoted
  subject := fun _ => Discriminant.validBy_of rfl
  jump := rfl

theorem Checks.dispatches_unled : Checks.unled.Dispatches where
  key := fun _ _ => rfl
  subject := fun _ _ => rfl
  jump := rfl

/-! ### The cases of a chain -/

namespace Chain

/-- The case that a branch becomes. -/
theorem cases_toSwitch (options : SwitchOptions) (chain : Chain) :
    (chain.toSwitch options).value.cases =
      chain.branches.map (fun branch => branch.toCase options branch.cond.key) ++
        (chain.otherwise.map Otherwise.toCase).toList := by
  have hzip : ∀ branches : List (Clause Stmt),
      branches.zipWith (Clause.toCase options) ((branches.map Clause.cond).map Expr.key) =
        branches.map (fun branch => branch.toCase options branch.cond.key) := by
    intro branches
    induction branches with
    | nil => rfl
    | cons b bs ih =>
      rw [List.map_cons, List.map_cons, List.zipWith_cons_cons, ih, List.map_cons]
  simp only [toSwitch, Traced.value_bind, Traced.value_pure, keys_resolve, conds, hzip]

theorem subject_toSwitch_of (options : SwitchOptions) (cond : Expr) (body : List Stmt)
    (elseifs : List (Clause Stmt)) (otherwise : Option (Otherwise Stmt)) :
    ((Chain.of cond body elseifs otherwise).toSwitch options).value.subject =
      (Discriminant.of cond).expr := rfl

end Chain

namespace Stmt

variable {c : Checks} {options : SwitchOptions}

theorem everyList_append (a b : List Stmt) :
    everyList c (a ++ b) = (everyList c a && everyList c b) := by
  induction a with
  | nil => rfl
  | cons s ss ih => rw [List.cons_append, everyList, everyList, ih, Bool.and_assoc]

theorem everyCases_append (a b : List (Case Stmt)) :
    everyCases c (a ++ b) = (everyCases c a && everyCases c b) := by
  induction a with
  | nil => rfl
  | cons s ss ih => simp [everyCases, ih, Bool.and_assoc]

theorem everyList_terminate {body : List Stmt} (hc : c.Dispatches) (h : everyList c body = true) :
    everyList c (terminate body) = true := by
  unfold terminate
  split
  · exact h
  · rw [everyList_append, h, everyList, every, hc.jump]
    rfl

/-- The cases of branches that pass do pass. -/
theorem everyCases_toCase (hc : c.Dispatches) (branches : List (Clause Stmt))
    (h : everyClauses c branches = true) :
    everyCases c (branches.map fun branch => branch.toCase options branch.cond.key) = true := by
  induction branches with
  | nil => rfl
  | cons branch branches ih =>
    obtain ⟨k, cond, body⟩ := branch
    simp only [everyClauses, Bool.and_eq_true] at h
    obtain ⟨⟨⟨hk, hcond⟩, hbody⟩, hbranches⟩ := h
    have hbody' : everyList c (if options.terminate then terminate body else body) = true := by
      split
      · exact everyList_terminate hc hbody
      · exact hbody
    simp only [List.map_cons, Clause.toCase, everyCases, Bool.and_eq_true, Option.all_some]
    exact ⟨⟨⟨hk, hc.key cond hcond⟩, hbody'⟩, ih hbranches⟩

theorem everyCases_otherwise {otherwise : Option (Otherwise Stmt)}
    (h : everyOtherwise c otherwise = true) :
    everyCases c (otherwise.map Otherwise.toCase).toList = true := by
  cases otherwise with
  | none => rfl
  | some o =>
    obtain ⟨k, body⟩ := o
    rw [everyOtherwise, Bool.and_eq_true] at h
    simp [Otherwise.toCase, everyCases, h.1, h.2]

mutual

/-- Checks on all parts survive dispatching. -/
theorem every_dispatch (hc : c.Dispatches) : ∀ s : Stmt, s.every c = true →
    (s.dispatch options).value.every c = true
  | leaf k l, h => h
  | block k body, h => by
    rw [every, Bool.and_eq_true] at h
    rw [value_dispatch_block, every, h.1, everyList_dispatch hc body h.2]
    rfl
  | «while» k cond body, h => by
    rw [every, Bool.and_eq_true, Bool.and_eq_true] at h
    rw [value_dispatch_while, every, h.1.1, h.1.2, everyList_dispatch hc body h.2]
    rfl
  | conditional k cond body elseifs otherwise, h => by
    simp only [every, Bool.and_eq_true] at h
    obtain ⟨⟨⟨⟨hk, hcond⟩, hbody⟩, helseifs⟩, hotherwise⟩ := h
    have hbranches : everyClauses c (⟨[], cond, (dispatchList options body).value⟩ ::
        (dispatchClauses options elseifs).value) = true := by
      rw [everyClauses, hcond, everyList_dispatch hc body hbody,
        everyClauses_dispatch hc elseifs helseifs]
      rfl
    have hdefault := everyCases_otherwise (everyOtherwise_dispatch hc otherwise hotherwise)
    rw [value_dispatch_conditional, Switch.stmt, every, Chain.cases_toSwitch, everyCases_append, hk,
      Chain.subject_toSwitch_of, hc.subject cond hcond]
    rw [Chain.of, everyCases_toCase hc _ hbranches, hdefault]
    rfl
  | switch k subject cases, h => by
    rw [every, Bool.and_eq_true, Bool.and_eq_true] at h
    rw [value_dispatch_switch, every, h.1.1, h.1.2, everyCases_dispatch hc cases h.2]
    rfl

theorem everyList_dispatch (hc : c.Dispatches) : ∀ ss : List Stmt, everyList c ss = true →
    everyList c (dispatchList options ss).value = true
  | [], _ => rfl
  | s :: ss, h => by
    rw [everyList, Bool.and_eq_true] at h
    have hs := every_dispatch hc s h.1
    have hss := everyList_dispatch hc ss h.2
    simp only [dispatchList, Traced.value_bind, Traced.value_pure, everyList, hs, hss,
      Bool.and_self]

theorem everyClauses_dispatch (hc : c.Dispatches) : ∀ clauses : List (Clause Stmt),
    everyClauses c clauses = true → everyClauses c (dispatchClauses options clauses).value = true
  | [], _ => rfl
  | ⟨k, cond, body⟩ :: clauses, h => by
    simp only [everyClauses, Bool.and_eq_true] at h
    have hbody := everyList_dispatch hc body h.1.2
    have hclauses := everyClauses_dispatch hc clauses h.2
    simp only [dispatchClauses, Traced.value_bind, Traced.value_pure, everyClauses, h.1.1.1,
      h.1.1.2, hbody, hclauses, Bool.and_self]

theorem everyOtherwise_dispatch (hc : c.Dispatches) : ∀ otherwise : Option (Otherwise Stmt),
    everyOtherwise c otherwise = true →
    everyOtherwise c (dispatchOtherwise options otherwise).value = true
  | none, _ => rfl
  | some ⟨k, body⟩, h => by
    rw [everyOtherwise, Bool.and_eq_true] at h
    have hbody := everyList_dispatch hc body h.2
    simp only [dispatchOtherwise, Traced.value_bind, Traced.value_pure, everyOtherwise, h.1, hbody,
      Bool.and_self]

theorem everyCases_dispatch (hc : c.Dispatches) : ∀ cases : List (Case Stmt),
    everyCases c cases = true → everyCases c (dispatchCases options cases).value = true
  | [], _ => rfl
  | ⟨k, key, body⟩ :: cases, h => by
    simp only [everyCases, Bool.and_eq_true] at h
    have hbody := everyList_dispatch hc body h.1.2
    have hcases := everyCases_dispatch hc cases h.2
    simp only [dispatchCases, Traced.value_bind, Traced.value_pure, everyCases, h.1.1.1, h.1.1.2,
      hbody, hcases, Bool.and_self]

end

/-! ### Branches that keep their comments -/

/-- The branch keeps its last comments when it becomes a case: it does not end in an
empty statement, or neither another case nor a `break` comes behind it. -/
def branchKeeps (options : SwitchOptions) (followed : Bool) (body : List Stmt) : Bool :=
  !endsInNop body || (!followed && (!options.terminate || endsInJump body))

/-- Each branch keeps its comments, and so does the last when an `else` clause follows. -/
def branchesKeep (options : SwitchOptions) (hasElse : Bool) : List (Clause Stmt) → Bool
  | [] => true
  | branch :: branches =>
    branchKeeps options (!branches.isEmpty || hasElse) branch.body &&
      branchesKeep options hasElse branches

mutual

/-- No branch of a conditional in the statement gives comments away. -/
def keeps (options : SwitchOptions) : Stmt → Bool
  | leaf _ _ => true
  | block _ body => keepsList options body
  | «while» _ _ body => keepsList options body
  | conditional _ cond body elseifs otherwise =>
    branchesKeep options otherwise.isSome (⟨[], cond, body⟩ :: elseifs) &&
      keepsList options body && keepsClauses options elseifs && keepsOtherwise options otherwise
  | switch _ _ cases => keepsCases options cases
termination_by structural s => s

/-- The same for the statements of a list. -/
def keepsList (options : SwitchOptions) : List Stmt → Bool
  | [] => true
  | s :: ss => s.keeps options && keepsList options ss
termination_by structural ss => ss

/-- The same for the bodies of `elseif` clauses. -/
def keepsClauses (options : SwitchOptions) : List (Clause Stmt) → Bool
  | [] => true
  | ⟨_, _, body⟩ :: clauses => keepsList options body && keepsClauses options clauses
termination_by structural clauses => clauses

/-- The same for the body of an `else` clause. -/
def keepsOtherwise (options : SwitchOptions) : Option (Otherwise Stmt) → Bool
  | none => true
  | some ⟨_, body⟩ => keepsList options body
termination_by structural otherwise => otherwise

/-- The same for the bodies of cases. -/
def keepsCases (options : SwitchOptions) : List (Case Stmt) → Bool
  | [] => true
  | ⟨_, _, body⟩ :: cases => keepsList options body && keepsCases options cases
termination_by structural cases => cases

end

/-! ### Settled cases -/

theorem endsInNop_append_singleton (body : List Stmt) (s : Stmt) :
    endsInNop (body ++ [s]) = s.isNop := by
  simp [endsInNop]

theorem endsInNop_cons_cons (s t : Stmt) (ss : List Stmt) :
    endsInNop (s :: t :: ss) = endsInNop (t :: ss) := by
  simp [endsInNop]

/-- A `break` may only be added where no empty statement stands last. -/
theorem settledList_append_break (body : List Stmt) :
    settledList (body ++ [leaf [] .break]) = (settledList body && !endsInNop body) := by
  induction body with
  | nil => rfl
  | cons s ss ih =>
    rw [List.cons_append, settledList, settledList]
    rcases Bool.eq_false_or_eq_true s.isNop with hs | hs
    · cases ss with
      | nil => simp [hs, endsInNop]
      | cons t ss => simp [hs]
    · cases ss with
      | nil =>
        have hbreak : (leaf [] .break).isNop = false := rfl
        simp [hs, endsInNop, settledList, settled, hbreak]
      | cons t ss =>
        rw [endsInNop_cons_cons, ih, if_neg (by simp [hs]), if_neg (by simp [hs]), Bool.and_assoc]

/-- A branch is settled as a case exactly when it is settled and keeps its comments. -/
theorem settled_caseBody (options : SwitchOptions) (last : Bool) (body : List Stmt) :
    (settledList (if options.terminate then terminate body else body) &&
      (last || !endsInNop (if options.terminate then terminate body else body))) =
    (branchKeeps options (!last) body && settledList body) := by
  unfold terminate branchKeeps
  rcases Bool.eq_false_or_eq_true options.terminate with ht | ht
  · rcases Bool.eq_false_or_eq_true (endsInJump body) with hj | hj
    · simp only [ht, hj, if_true, Bool.not_not, Bool.or_true, Bool.and_true]
      cases settledList body <;> cases last <;> cases endsInNop body <;> rfl
    · have hbreak : (leaf [] .break).isNop = false := rfl
      simp only [ht, hj, if_true, Bool.false_eq_true, if_false, settledList_append_break,
        endsInNop_append_singleton, hbreak]
      cases settledList body <;> cases last <;> cases endsInNop body <;> rfl
  · simp only [ht, Bool.false_eq_true, if_false, Bool.not_not]
    cases settledList body <;> cases last <;> cases endsInNop body <;> rfl

/-- The cases of a chain are settled exactly when its branches are and keep their
comments, and its `else` clause is settled. -/
theorem settledCases_toCase (options : SwitchOptions) (otherwise : Option (Otherwise Stmt))
    (branches : List (Clause Stmt)) :
    settledCases (branches.map (fun branch => branch.toCase options branch.cond.key) ++
        (otherwise.map Otherwise.toCase).toList) =
      ((branchesKeep options otherwise.isSome branches && settledClauses branches) &&
        settledOtherwise otherwise) := by
  induction branches with
  | nil =>
    cases otherwise with
    | none => rfl
    | some o =>
      simp [settledCases, Otherwise.toCase, branchesKeep, settledClauses, settledOtherwise]
  | cons branch branches ih =>
    obtain ⟨k, cond, body⟩ := branch
    have hlast : (branches.map (fun branch => branch.toCase options branch.cond.key) ++
        (otherwise.map Otherwise.toCase).toList).isEmpty =
          !(!branches.isEmpty || otherwise.isSome) := by
      cases branches <;> cases otherwise <;> rfl
    rw [List.map_cons, List.cons_append, Clause.toCase, settledCases, ih, hlast, settled_caseBody,
      Bool.not_not, branchesKeep, settledClauses]
    ac_rfl

theorem isNop_dispatch (s : Stmt) : (s.dispatch options).value.isNop = s.isNop := by
  cases s <;> rfl

theorem isJump_dispatch (s : Stmt) : (s.dispatch options).value.isJump = s.isJump := by
  cases s <;> rfl

theorem endsInNop_dispatch (body : List Stmt) :
    endsInNop (dispatchList options body).value = endsInNop body := by
  rw [value_dispatchList, endsInNop, endsInNop, List.getLast?_map]
  cases body.getLast? with
  | none => rfl
  | some s => exact isNop_dispatch s

theorem endsInJump_dispatch (body : List Stmt) :
    endsInJump (dispatchList options body).value = endsInJump body := by
  have hnop : (fun s : Stmt => !s.isNop) ∘ (fun s : Stmt => (s.dispatch options).value) =
      fun s : Stmt => !s.isNop := by
    funext s
    simp [isNop_dispatch]
  rw [value_dispatchList, endsInJump, endsInJump, ← List.map_reverse, List.find?_map, hnop]
  cases body.reverse.find? (!·.isNop) with
  | none => rfl
  | some s => exact isJump_dispatch s

theorem branchKeeps_dispatch (followed : Bool) (body : List Stmt) :
    branchKeeps options followed (dispatchList options body).value =
      branchKeeps options followed body := by
  rw [branchKeeps, endsInNop_dispatch, endsInJump_dispatch]
  rfl

theorem branchesKeep_dispatch (hasElse : Bool) (branches : List (Clause Stmt)) :
    branchesKeep options hasElse (dispatchClauses options branches).value =
      branchesKeep options hasElse branches := by
  induction branches with
  | nil => rfl
  | cons branch branches ih =>
    obtain ⟨k, cond, body⟩ := branch
    have hempty : (dispatchClauses options branches).value.isEmpty = branches.isEmpty := by
      cases branches <;> rfl
    simp only [dispatchClauses, Traced.value_bind, Traced.value_pure, branchesKeep, hempty, ih,
      branchKeeps_dispatch]

mutual

/-- A settled statement is dispatched to a settled one exactly when no branch gives
comments away. -/
theorem settled_dispatch : ∀ s : Stmt, s.settled = true →
    (s.dispatch options).value.settled = s.keeps options
  | leaf k l, _ => rfl
  | block k body, h => settledList_dispatch body h
  | «while» k cond body, h => settledList_dispatch body h
  | conditional k cond body elseifs otherwise, h => by
    simp only [settled, Bool.and_eq_true] at h
    obtain ⟨⟨hbody, helseifs⟩, hotherwise⟩ := h
    have hsome : (dispatchOtherwise options otherwise).value.isSome = otherwise.isSome := by
      cases otherwise <;> rfl
    have hbranches : branchesKeep options otherwise.isSome
        (⟨[], cond, (dispatchList options body).value⟩ :: (dispatchClauses options elseifs).value) =
          branchesKeep options otherwise.isSome (⟨[], cond, body⟩ :: elseifs) :=
      branchesKeep_dispatch otherwise.isSome (⟨[], cond, body⟩ :: elseifs)
    rw [value_dispatch_conditional, Switch.stmt, settled, Chain.cases_toSwitch]
    simp only [Chain.of]
    rw [settledCases_toCase, hsome, hbranches, settledClauses, settledList_dispatch body hbody,
      settledClauses_dispatch elseifs helseifs, settledOtherwise_dispatch otherwise hotherwise,
      keeps, ← Bool.and_assoc]
  | switch k subject cases, h => settledCases_dispatch cases h

theorem settledList_dispatch : ∀ ss : List Stmt, settledList ss = true →
    settledList (dispatchList options ss).value = keepsList options ss
  | [], _ => rfl
  | s :: ss, h => by
    simp only [dispatchList, Traced.value_bind, Traced.value_pure, settledList, keepsList,
      isNop_dispatch]
    rw [settledList] at h
    rcases Bool.eq_false_or_eq_true s.isNop with hs | hs
    · rw [if_pos hs, Bool.and_eq_true, List.isEmpty_iff] at h
      obtain ⟨hk, rfl⟩ := h
      rw [if_pos hs, eq_leaf_of_isNop hs]
      simpa [dispatchList, keeps, keepsList, comments] using hk
    · rw [if_neg (by simp [hs]), Bool.and_eq_true] at h
      rw [if_neg (by simp [hs]), settled_dispatch s h.1, settledList_dispatch ss h.2]

theorem settledClauses_dispatch : ∀ clauses : List (Clause Stmt), settledClauses clauses = true →
    settledClauses (dispatchClauses options clauses).value = keepsClauses options clauses
  | [], _ => rfl
  | ⟨k, cond, body⟩ :: clauses, h => by
    rw [settledClauses, Bool.and_eq_true] at h
    simp only [dispatchClauses, Traced.value_bind, Traced.value_pure, settledClauses, keepsClauses,
      settledList_dispatch body h.1, settledClauses_dispatch clauses h.2]

theorem settledOtherwise_dispatch : ∀ otherwise : Option (Otherwise Stmt),
    settledOtherwise otherwise = true →
    settledOtherwise (dispatchOtherwise options otherwise).value = keepsOtherwise options otherwise
  | none, _ => rfl
  | some ⟨_, body⟩, h => settledList_dispatch body h

theorem settledCases_dispatch : ∀ cases : List (Case Stmt), settledCases cases = true →
    settledCases (dispatchCases options cases).value = keepsCases options cases
  | [], _ => rfl
  | ⟨k, key, body⟩ :: cases, h => by
    simp only [settledCases, Bool.and_eq_true] at h
    have hempty : (dispatchCases options cases).value.isEmpty = cases.isEmpty := by
      cases cases <;> rfl
    simp only [dispatchCases, Traced.value_bind, Traced.value_pure, settledCases, keepsCases, hempty,
      endsInNop_dispatch, settledList_dispatch body h.1.1, settledCases_dispatch cases h.2, h.1.2,
      Bool.and_true]

end

end Stmt

namespace Program

variable (options : SwitchOptions) (p : Program)

/-- No branch of a conditional in the program gives comments away. -/
def keeps : Bool := Stmt.keepsList options p.stmts

theorem every_dispatch {c : Checks} (hc : c.Dispatches) (h : p.every c = true) :
    (p.dispatch options).value.every c = true :=
  Stmt.everyList_dispatch hc p.stmts h

theorem settled_dispatch (h : p.settled = true) :
    (p.dispatch options).value.settled = p.keeps options :=
  Stmt.settledList_dispatch p.stmts h

/-- **The text of a dispatched program reads back**, with its comments settled, **and
as the same tree exactly when no branch gives comments away.** -/
theorem parse_text_dispatch (h : p.printable = true) :
    Program.parse (p.dispatch options).value.text = .ok (p.dispatch options).value.settle ∧
      (Program.parse (p.dispatch options).value.text = .ok (p.dispatch options).value ↔
        p.keeps options = true) := by
  rw [printable, Bool.and_eq_true, Bool.and_eq_true] at h
  obtain ⟨⟨hlex, hunled⟩, hsettled⟩ := h
  have hread := parse_text_eq_settle (p.dispatch options).value
    (every_dispatch options p Checks.dispatches_lexical hlex)
    (every_dispatch options p Checks.dispatches_unled hunled)
  refine ⟨hread, ?_⟩
  rw [hread, Except.ok.injEq, settle_eq_iff, settled_dispatch options p hsettled]

/-- A comment may stay behind in the last branch, and anywhere before a branch. -/
theorem parse_text_dispatch_last :
    let p : Program := ⟨true, [.conditional [⟨"// which"⟩] (.binary .equal (.var "a") (.lit (.int 1)))
      [.leaf [] (.echo [.lit (.int 1)])]
      [⟨[⟨"/* two */"⟩], .binary .equal (.var "a") (.lit (.int 2)), []⟩]
      (some ⟨[], [.leaf [] (.echo [.lit (.int 2)]), .leaf [⟨"// x"⟩] .nop]⟩)]⟩
    p.printable = true ∧
      Program.parse (p.dispatch ⟨false⟩).value.text = .ok (p.dispatch ⟨false⟩).value :=
  ⟨by decide, (parse_text_dispatch ⟨false⟩ _ (by decide)).2.mpr (by decide)⟩

/-- The comment that ends the first branch is read as a comment of the second case. -/
theorem parse_text_dispatch_first :
    let p : Program := ⟨false, [.conditional [] (.binary .equal (.var "a") (.lit (.int 1)))
      [.leaf [] (.echo [.lit (.int 1)]), .leaf [⟨"// x"⟩] .nop] []
      (some ⟨[], [.leaf [] (.echo [.lit (.int 2)])]⟩)]⟩
    p.printable = true ∧
      Program.parse (p.dispatch ⟨false⟩).value.text ≠ .ok (p.dispatch ⟨false⟩).value := by
  refine ⟨by decide, ?_⟩
  rw [parse_text_eq_settle _ (by decide) (by decide), ne_eq, Except.ok.injEq, settle_eq_iff]
  decide

end Program

end Casework
