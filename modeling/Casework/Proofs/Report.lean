import Mathlib.Data.List.Perm.Basic
import Casework.Proofs.Conditional
import Casework.Proofs.Keys

/-!
# What dispatching reports

Conditionals are dispatched from the inside out, and each is reported once, when its
switch is there: first the conditions that compare nothing, in the order of its branches,
and then the switch itself.  So a conditional is reported behind those in its bodies, and
the report of a program is told by its statements alone, each of them behind all that it
contains.  What a body has become by then does not show in the report, and neither do the
options.

## Main definitions

* `Stmt.postorder`, `Stmt.statements` — all statements at any depth, each behind those in
  it, and each before them.
* `Chain.report`, `Chain.records` — what is reported of one chain, as events and as the
  records of a log.

## Main results

* `Stmt.events_dispatch_step` — a statement reports what its segments do, and then its own
  chain.
* `Stmt.events_dispatch` — the events of a statement, chain by chain.
* `Stmt.postorder_perm` — the two orders are of the same statements.
* `Expr.predicate_eq_of_record` — the record of a condition tells its predicate text.
* `Program.records_dispatch_insideOut` — **the report goes through the conditionals of a
  program from the inside out, and leaves none out**.
-/

namespace Casework

/-! ### The report of a chain -/

/-- Two conditions and a connective between them. -/
def Expr.isLogical : Expr → Bool
  | binary .and _ _ | binary .or _ _ => true
  | _ => false

/-- The event of a condition that compares nothing. -/
def Expr.fallbackEvent (cond : Expr) : Event :=
  .fallback (if cond.isLogical then .logical else .other) cond.predicate

namespace Chain

/-- What the chain is dispatched on: the left side of its first condition, or the truth if
that compares nothing. -/
def subject (chain : Chain) : Expr :=
  ((chain.conds.head?.bind Expr.sides?).map Prod.fst).getD (.lit (.bool true))

/-- The conditions of the chain that compare nothing, in order. -/
def fallbacks (chain : Chain) : List Expr := chain.conds.filter (·.sides?.isNone)

/-- The events of a chain: its conditions that compare nothing, and then its switch. -/
def report (chain : Chain) : List Event :=
  chain.fallbacks.map Expr.fallbackEvent ++
    [.dispatched chain.subject chain.branches.length chain.otherwise.isSome]

end Chain

/-- Only a condition that compares nothing causes an event. -/
theorem Expr.fallback?_eq (cond : Expr) :
    cond.fallback? = if cond.sides?.isNone then some cond.fallbackEvent else none := by
  cases cond with
  | binary op left right => cases op <;> rfl
  | _ => rfl

theorem filterMap_fallback? (conds : List Expr) :
    conds.filterMap Expr.fallback? =
      (conds.filter (·.sides?.isNone)).map Expr.fallbackEvent := by
  induction conds with
  | nil => rfl
  | cons cond conds ih =>
    rw [List.filterMap_cons, List.filter_cons, cond.fallback?_eq, ih]
    split <;> simp_all

namespace Chain

theorem subject_toSwitch (options : SwitchOptions) (chain : Chain) :
    (chain.toSwitch options).value.subject = chain.subject := by
  show ((chain.conds.head?.map Discriminant.of).getD .truthy).expr = chain.subject
  rw [subject]
  cases chain.conds.head? with
  | none => rfl
  | some cond =>
    show (Discriminant.of cond).expr = _
    rw [Discriminant.of_eq, Option.bind_some]
    cases cond.sides? <;> rfl

theorem events_toSwitch (options : SwitchOptions) (chain : Chain) :
    (chain.toSwitch options).events = chain.fallbacks.map Expr.fallbackEvent := by
  rw [toSwitch, Traced.events_bind, Traced.events_pure, List.append_nil, events_resolve,
    filterMap_fallback?, fallbacks]

/-- What is reported of a chain depends on nothing but its conditions and on whether there
is an `else` clause. -/
theorem report_congr {chain other : Chain} (hconds : chain.conds = other.conds)
    (hotherwise : chain.otherwise.isSome = other.otherwise.isSome) :
    chain.report = other.report := by
  have hlength : ∀ c : Chain, c.branches.length = c.conds.length :=
    fun c => (List.length_map Clause.cond).symm
  simp only [report, fallbacks, subject, hlength, hconds, hotherwise]

end Chain

/-! ### From the inside out -/

namespace Stmt

mutual

/-- The statement and all statements in it, each behind those in it. -/
def postorder : Stmt → List Stmt
  | leaf k l => [leaf k l]
  | block k body => postorderList body ++ [block k body]
  | «while» k cond body => postorderList body ++ [«while» k cond body]
  | conditional k cond body elseifs otherwise =>
    postorderList body ++ (postorderClauses elseifs ++
      (postorderOtherwise otherwise ++ [conditional k cond body elseifs otherwise]))
  | switch k subject cases => postorderCases cases ++ [switch k subject cases]
termination_by structural s => s

/-- The same for the statements of a list. -/
def postorderList : List Stmt → List Stmt
  | [] => []
  | s :: ss => s.postorder ++ postorderList ss
termination_by structural ss => ss

/-- The same for `elseif` clauses. -/
def postorderClauses : List (Clause Stmt) → List Stmt
  | [] => []
  | ⟨_, _, body⟩ :: clauses => postorderList body ++ postorderClauses clauses
termination_by structural clauses => clauses

/-- The same for an `else` clause. -/
def postorderOtherwise : Option (Otherwise Stmt) → List Stmt
  | none => []
  | some ⟨_, body⟩ => postorderList body
termination_by structural otherwise => otherwise

/-- The same for cases. -/
def postorderCases : List (Case Stmt) → List Stmt
  | [] => []
  | ⟨_, _, body⟩ :: cases => postorderList body ++ postorderCases cases
termination_by structural cases => cases

end

theorem postorderList_eq (ss : List Stmt) : postorderList ss = ss.flatMap postorder := by
  induction ss with
  | nil => rfl
  | cons s ss ih => rw [postorderList, ih, List.flatMap_cons]

theorem postorderClauses_eq (clauses : List (Clause Stmt)) : postorderClauses clauses =
    (clauses.map Clause.segment).flatMap fun g => postorderList g.body := by
  induction clauses with
  | nil => rfl
  | cons c clauses ih =>
    rw [postorderClauses, ih, List.map_cons, List.flatMap_cons]
    rfl

theorem postorderCases_eq (cases : List (Case Stmt)) : postorderCases cases =
    (cases.map Case.segment).flatMap fun g => postorderList g.body := by
  induction cases with
  | nil => rfl
  | cons c cases ih =>
    rw [postorderCases, ih, List.map_cons, List.flatMap_cons]
    rfl

/-- The segments come first, in the order of the text, and then the statement. -/
theorem postorder_eq (s : Stmt) :
    s.postorder = (s.segments.flatMap fun g => g.body.flatMap postorder) ++ [s] := by
  simp only [← postorderList_eq]
  cases s with
  | leaf k l => rfl
  | block k body => simp [postorder, segments]
  | «while» k cond body => simp [postorder, segments]
  | conditional k cond body elseifs otherwise =>
    rw [postorder, segments, postorderClauses_eq, List.flatMap_append]
    cases otherwise with
    | none => simp [postorderOtherwise, Clause.segment]
    | some o => simp [postorderOtherwise, Clause.segment, Otherwise.segment]
  | switch k subject cases => rw [postorder, segments, postorderCases_eq]

/-! ### Events along the segments -/

variable (options : SwitchOptions)

theorem events_dispatchList (ss : List Stmt) :
    (dispatchList options ss).events = ss.flatMap fun s => (s.dispatch options).events := by
  induction ss with
  | nil => rfl
  | cons s ss ih => simp [dispatchList, ih]

theorem events_dispatchClauses (clauses : List (Clause Stmt)) :
    (dispatchClauses options clauses).events =
      (clauses.map Clause.segment).flatMap fun g => (dispatchList options g.body).events := by
  induction clauses with
  | nil => rfl
  | cons c clauses ih => simp [dispatchClauses, ih, Clause.segment]

theorem events_dispatchOtherwise (otherwise : Option (Otherwise Stmt)) :
    (dispatchOtherwise options otherwise).events =
      (otherwise.map Otherwise.segment).toList.flatMap
        fun g => (dispatchList options g.body).events := by
  cases otherwise with
  | none => rfl
  | some o => simp [dispatchOtherwise, Otherwise.segment]

theorem events_dispatchCases (cases : List (Case Stmt)) :
    (dispatchCases options cases).events =
      (cases.map Case.segment).flatMap fun g => (dispatchList options g.body).events := by
  induction cases with
  | nil => rfl
  | cons c cases ih => simp [dispatchCases, ih, Case.segment]

/-- What is reported of a chain is the same before and after its bodies are dispatched. -/
theorem report_dispatch (cond : Expr) (body : List Stmt) (elseifs : List (Clause Stmt))
    (otherwise : Option (Otherwise Stmt)) :
    (Chain.of cond (dispatchList options body).value (dispatchClauses options elseifs).value
      (dispatchOtherwise options otherwise).value).report =
        (Chain.of cond body elseifs otherwise).report := by
  apply Chain.report_congr
  · rw [value_dispatchClauses]
    simp [Chain.of, Chain.conds]
  · rw [value_dispatchOtherwise]
    exact Option.isSome_map

/-- A statement reports what its segments do, and then its own chain. -/
theorem events_dispatch_step (s : Stmt) : (s.dispatch options).events =
    (s.segments.flatMap fun g => (dispatchList options g.body).events) ++
      s.chain?.toList.flatMap Chain.report := by
  cases s with
  | leaf k l => rfl
  | block k body => simp [dispatch, segments, chain?]
  | «while» k cond body => simp [dispatch, segments, chain?]
  | conditional k cond body elseifs otherwise =>
    -- the chain is reported when its bodies are done, and they do not show in the report
    have hown := report_dispatch options cond body elseifs otherwise
    simp only [dispatch, Traced.events_bind, Traced.events_pure, Traced.events_report,
      events_dispatchClauses, events_dispatchOtherwise, Chain.events_toSwitch,
      Chain.subject_toSwitch, List.append_nil]
    rw [← Chain.report, hown, segments, List.flatMap_append, List.map_cons, List.flatMap_cons]
    simp [chain?, Clause.segment]
  | switch k subject cases => simp [dispatch, segments, chain?, events_dispatchCases]

/-- The events of a statement, chain by chain and from the inside out. -/
theorem events_dispatch (s : Stmt) :
    (s.dispatch options).events = (s.postorder.filterMap chain?).flatMap Chain.report := by
  induction s using bySegments with
  | step s ih =>
    have hsegments : (s.segments.flatMap fun g => (dispatchList options g.body).events) =
        s.segments.flatMap fun g => g.body.flatMap fun t =>
          (t.postorder.filterMap chain?).flatMap Chain.report := by
      refine List.flatMap_congr fun g hg => ?_
      rw [events_dispatchList]
      exact List.flatMap_congr fun t ht => ih g hg t ht
    rw [events_dispatch_step, hsegments, postorder_eq, List.filterMap_append,
      List.flatMap_append]
    -- behind the chains of the segments there is only the statement's own one, if any
    simp only [List.filterMap_flatMap, List.flatMap_assoc]
    cases h : s.chain? <;> simp [h]

end Stmt

/-! ### In the order of the text -/

/-- The statement of a node, if it is none of the segments. -/
def Node.stmt? : Node → Option Stmt
  | .stmt s => some s
  | .segment _ => none

namespace Stmt

/-- The statement and all statements in it, in the order of the text. -/
def statements (s : Stmt) : List Stmt := s.listing.filterMap Node.stmt?

/-- The statement comes first, and then its segments in the order of the text. -/
theorem statements_eq (s : Stmt) :
    s.statements = s :: s.segments.flatMap fun g => g.body.flatMap statements := by
  have hown : Node.stmt? (.stmt s) = some s := rfl
  rw [statements, listing_eq, List.filterMap_cons_some hown, List.filterMap_flatMap]
  congr 1
  refine List.flatMap_congr fun g _ => ?_
  rw [Segment.listing, List.filterMap_cons_none rfl, List.filterMap_flatMap]
  rfl

/-- From the inside out come the same statements as in the order of the text. -/
theorem postorder_perm (s : Stmt) : s.postorder.Perm s.statements := by
  induction s using bySegments with
  | step s ih =>
    rw [postorder_eq, statements_eq]
    refine (List.perm_append_singleton s _).trans (List.Perm.cons s ?_)
    exact List.Perm.flatMap_left _ fun g hg => List.Perm.flatMap_left _ fun t ht => ih g hg t ht

/-- The conditions of a conditional, in the order of its branches. -/
def conds : Stmt → List Expr
  | conditional _ cond _ elseifs _ => cond :: elseifs.map Clause.cond
  | _ => []

theorem isSome_chain? (s : Stmt) : s.chain?.isSome = s.isConditional := by
  cases s <;> rfl

theorem flatMap_conds (ss : List Stmt) :
    (ss.filterMap chain?).flatMap Chain.conds = ss.flatMap conds := by
  rw [List.filterMap_eq_flatMap_toList, List.flatMap_assoc]
  refine List.flatMap_congr fun s _ => ?_
  cases s <;> simp [chain?, conds, Chain.of, Chain.conds]

end Stmt

/-! ### Records -/

/-- The record of an event in a log: its level and its wording. -/
def Event.record (e : Event) : Severity × String := (e.severity, e.message)

/-- The records of what a computation reports. -/
def Traced.records {α : Type} (t : Traced α) : List (Severity × String) :=
  t.events.map Event.record

/-- The record of a condition that compares nothing: it names its predicate text. -/
def Expr.record (cond : Expr) : Severity × String :=
  (.trace, (if cond.isLogical then "logical" else "opaque") ++
    " condition falls back to predicate key " ++ String.ofList (quote cond.predicate))

/-- Records of conditions with different predicate texts differ. -/
theorem Expr.predicate_eq_of_record {a b : Expr} (h : a.record = b.record) :
    a.predicate = b.predicate := by
  have htext : (if a.isLogical then "logical" else "opaque").toList ++
      (" condition falls back to predicate key ".toList ++ quote a.predicate) =
      (if b.isLogical then "logical" else "opaque").toList ++
      (" condition falls back to predicate key ".toList ++ quote b.predicate) := by
    have hwording := congrArg (fun r => r.2.toList) h
    simpa only [record, String.toList_append, String.toList_ofList, List.append_assoc]
      using hwording
  -- the first letters tell the two wordings apart
  cases hlogical : a.isLogical <;> cases hlogical' : b.isLogical <;>
    rw [hlogical, hlogical'] at htext
  · exact quote_inj.mp (List.append_cancel_left (List.append_cancel_left htext))
  · cases htext
  · cases htext
  · exact quote_inj.mp (List.append_cancel_left (List.append_cancel_left htext))

namespace Chain

/-- The record of the switch of a chain: it names the subject, the number of branches, and
the default case if there is one. -/
def record (chain : Chain) : Severity × String :=
  (.debug, "rewrote if chain as switch (" ++ String.ofList chain.subject.text ++ "): " ++
    chain.branches.length.repr ++ " branch(es)" ++
      if chain.otherwise.isSome then " + default" else "")

/-- The records of a chain: one for each condition that compares nothing, and then one for
its switch. -/
def records (chain : Chain) : List (Severity × String) :=
  chain.fallbacks.map Expr.record ++ [chain.record]

theorem map_record_report (chain : Chain) : chain.report.map Event.record = chain.records := by
  have hcond : ∀ cond : Expr, cond.fallbackEvent.record = cond.record := by
    intro cond
    unfold Expr.fallbackEvent Expr.record
    cases cond.isLogical <;> rfl
  rw [report, records, List.map_append, List.map_map]
  congr 1
  exact List.map_congr_left fun cond _ => hcond cond

theorem countP_debug_records (chain : Chain) : chain.records.countP (·.1 = .debug) = 1 := by
  have hnone : (chain.fallbacks.map Expr.record).countP (·.1 = .debug) = 0 := by
    simp [List.countP_eq_zero, Expr.record]
  rw [records, List.countP_append, hnone]
  rfl

theorem countP_trace_records (chain : Chain) :
    chain.records.countP (·.1 = .trace) = chain.conds.countP (·.sides?.isNone) := by
  have hall : (chain.fallbacks.map Expr.record).countP (·.1 = .trace) =
      chain.fallbacks.length := by
    rw [List.countP_map, List.countP_eq_length]
    simp [Expr.record]
  rw [records, List.countP_append, hall, fallbacks, ← List.countP_eq_length_filter]
  rfl

end Chain

namespace Program

variable (p : Program)

/-- All statements of a program, each behind those in it. -/
def postorder : List Stmt := p.stmts.flatMap Stmt.postorder

/-- All statements of a program, in the order of the text. -/
def statements : List Stmt := p.stmts.flatMap Stmt.statements

theorem postorder_perm : p.postorder.Perm p.statements :=
  List.Perm.flatMap_left _ fun s _ => s.postorder_perm

theorem events_dispatch (options : SwitchOptions) :
    (p.dispatch options).events = (p.postorder.filterMap Stmt.chain?).flatMap Chain.report := by
  rw [dispatch, Traced.events_bind, Traced.events_pure, List.append_nil,
    Stmt.events_dispatchList, postorder, List.filterMap_flatMap, List.flatMap_assoc]
  exact List.flatMap_congr fun s _ => s.events_dispatch options

theorem records_dispatch (options : SwitchOptions) :
    (p.dispatch options).records = (p.postorder.filterMap Stmt.chain?).flatMap Chain.records := by
  rw [Traced.records, events_dispatch, List.map_flatMap]
  exact List.flatMap_congr fun chain _ => chain.map_record_report

/-- **The report goes through the conditionals of a program from the inside out, and leaves
none out.**  Of each conditional it has one record for each condition that compares nothing,
in the order of its branches and with the predicate text, and then one with the subject of
its switch, the number of its branches and its default case.  Conditionals in its bodies come
before it, and otherwise they come in the order of the text.  The options play no part.
There are as many records at `debug` as there are conditionals, and as many at `trace` as
there are conditions that compare nothing. -/
theorem records_dispatch_insideOut (options : SwitchOptions) :
    (p.dispatch options).records = (p.postorder.filterMap Stmt.chain?).flatMap Chain.records ∧
      (p.dispatch options).events = (p.postorder.filterMap Stmt.chain?).flatMap Chain.report ∧
      p.postorder.Perm p.statements ∧
      (∀ other, (p.dispatch other).events = (p.dispatch options).events) ∧
      (p.dispatch options).records.countP (·.1 = .debug) =
        p.statements.countP Stmt.isConditional ∧
      (p.dispatch options).records.countP (·.1 = .trace) =
        (p.statements.flatMap Stmt.conds).countP (·.sides?.isNone) := by
  refine ⟨p.records_dispatch options, p.events_dispatch options, p.postorder_perm, ?_, ?_, ?_⟩
  · intro other
    rw [events_dispatch, events_dispatch]
  · -- one for each chain, and there is a chain for each conditional
    rw [records_dispatch, List.countP_flatMap, ← p.postorder_perm.countP_eq]
    have hone : (List.countP fun r : Severity × String => r.1 = .debug) ∘ Chain.records =
        fun _ => 1 := funext Chain.countP_debug_records
    rw [hone, List.map_const', List.sum_replicate_nat, Nat.mul_one,
      List.length_filterMap_eq_countP]
    simp only [Stmt.isSome_chain?]
  · -- as many for each chain as it has such conditions
    rw [records_dispatch, List.countP_flatMap, ← (p.postorder_perm.flatMap_right _).countP_eq,
      ← Stmt.flatMap_conds, List.countP_flatMap]
    exact congrArg List.sum (List.map_congr_left fun chain _ => chain.countP_trace_records)

/-- The conditional in the body is reported before the one around it. -/
example :
    let inner := Stmt.conditional [] (.binary .equal (.var "b") (.lit (.int 1))) [] [] none
    let outer := Stmt.conditional [] (.var "a") [inner] [] (some ⟨[], []⟩)
    (dispatch {} ⟨false, [outer]⟩).records =
      [(.debug, "rewrote if chain as switch ($b): 1 branch(es)"),
        (.trace, "opaque condition falls back to predicate key \"$a\""),
        (.debug, "rewrote if chain as switch (true): 1 branch(es) + default")] := by
  decide +kernel

end Program

end Casework
