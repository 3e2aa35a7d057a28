import Casework.Proofs.Dispatch

/-!
# Statements within statements

Statements contain lists of statements in several ways: the body of a block or a
loop, the branches of a conditional, the cases of a switch.  Seen alike, each of
them is a segment: a list of statements with the comments that lead it and with
the condition or key at its head.  A statement is then what it is by itself and
its segments, in the order of its text, and a property of all statements is
proved from the statements of the segments alone.

Dispatching is such a property.  It makes one segment of each segment, and what it
adds to one is never more than the `break` behind a branch.

## Main definitions

* `Segment`, `Stmt.segments` — the lists of statements in a statement.
* `Stmt.listing`, `Program.listing` — all statements and segments at any depth, in
  the order of the text.
* `ending` — what is added behind a branch that becomes a case.
* `Segment.dispatch` — the segment that a segment becomes.

## Main results

* `Stmt.bySegments` — induction over the statements of all segments.
* `Stmt.listing_eq` — the listing of a statement from those of its segments.
* `Stmt.segments_dispatch` — **dispatching goes segment by segment**.
-/

namespace Casework

/-! ### Segments -/

/-- A list of statements in a statement, with what stands at its head. -/
structure Segment where
  /-- It is the branch of a condition. -/
  guarded : Bool
  comments : List Comment
  /-- The condition of a branch, or the key of a case. -/
  label : Option Expr
  body : List Stmt

/-- The segment of a branch. -/
def Clause.segment (c : Clause Stmt) : Segment := ⟨true, c.comments, some c.cond, c.body⟩

/-- The segment of an `else` clause. -/
def Otherwise.segment (o : Otherwise Stmt) : Segment := ⟨false, o.comments, none, o.body⟩

/-- The segment of a case. -/
def Case.segment (c : Case Stmt) : Segment := ⟨false, c.comments, c.key, c.body⟩

namespace Stmt

/-- The statement is a conditional. -/
def isConditional : Stmt → Bool
  | conditional .. => true
  | _ => false

/-- The segments of a statement, in the order of its text. -/
def segments : Stmt → List Segment
  | leaf _ _ => []
  | block _ body | «while» _ _ body => [⟨false, [], none, body⟩]
  | conditional _ cond body elseifs otherwise =>
    (⟨[], cond, body⟩ :: elseifs).map Clause.segment ++ (otherwise.map Otherwise.segment).toList
  | switch _ _ cases => cases.map Case.segment

/-- A statement in a segment is smaller than the statement with the segment. -/
theorem sizeOf_lt_of_mem_segments {s t : Stmt} {g : Segment} (hg : g ∈ s.segments)
    (ht : t ∈ g.body) : sizeOf t < sizeOf s := by
  have hbody := List.sizeOf_lt_of_mem ht
  cases s with
  | leaf k l => cases hg
  | block k body =>
    obtain rfl := List.mem_singleton.mp hg
    simp at *; omega
  | «while» k cond body =>
    obtain rfl := List.mem_singleton.mp hg
    simp at *; omega
  | conditional k cond body elseifs otherwise =>
    rcases List.mem_append.mp hg with hg | hg
    · obtain ⟨c, hc, rfl⟩ := List.mem_map.mp hg
      rcases List.mem_cons.mp hc with rfl | hc
      · simp [Clause.segment] at *; omega
      · have := List.sizeOf_lt_of_mem hc
        cases c
        simp [Clause.segment] at *; omega
    · obtain ⟨o, rfl, rfl⟩ := Option.map_eq_some_iff.mp (Option.mem_toList.mp hg)
      cases o
      simp [Otherwise.segment] at *; omega
  | switch k subject cases =>
    obtain ⟨c, hc, rfl⟩ := List.mem_map.mp hg
    have := List.sizeOf_lt_of_mem hc
    cases c
    simp [Case.segment] at *; omega

/-- What holds of a statement whenever it holds of the statements in its segments holds of
every statement. -/
theorem bySegments {motive : Stmt → Prop}
    (step : ∀ s : Stmt, (∀ g ∈ s.segments, ∀ t ∈ g.body, motive t) → motive s) (s : Stmt) :
    motive s :=
  step s fun _ hg t ht =>
    have := sizeOf_lt_of_mem_segments hg ht
    bySegments step t
termination_by sizeOf s

end Stmt

/-! ### Listings -/

/-- What a listing holds: statements and segments. -/
inductive Node where
  | stmt (s : Stmt)
  | segment (g : Segment)

namespace Stmt

mutual

/-- The statement and all statements and segments in it, in the order of the text. -/
def listing : Stmt → List Node
  | leaf k l => [.stmt (leaf k l)]
  | block k body =>
    .stmt (block k body) :: .segment ⟨false, [], none, body⟩ :: listingList body
  | «while» k cond body =>
    .stmt («while» k cond body) :: .segment ⟨false, [], none, body⟩ :: listingList body
  | conditional k cond body elseifs otherwise =>
    .stmt (conditional k cond body elseifs otherwise) ::
      .segment ⟨true, [], some cond, body⟩ ::
        (listingList body ++ (listingClauses elseifs ++ listingOtherwise otherwise))
  | switch k subject cases => .stmt (switch k subject cases) :: listingCases cases
termination_by structural s => s

/-- The same for the statements of a list. -/
def listingList : List Stmt → List Node
  | [] => []
  | s :: ss => s.listing ++ listingList ss
termination_by structural ss => ss

/-- The same for `elseif` clauses. -/
def listingClauses : List (Clause Stmt) → List Node
  | [] => []
  | ⟨k, cond, body⟩ :: clauses =>
    .segment ⟨true, k, some cond, body⟩ :: (listingList body ++ listingClauses clauses)
termination_by structural clauses => clauses

/-- The same for an `else` clause. -/
def listingOtherwise : Option (Otherwise Stmt) → List Node
  | none => []
  | some ⟨k, body⟩ => .segment ⟨false, k, none, body⟩ :: listingList body
termination_by structural otherwise => otherwise

/-- The same for cases. -/
def listingCases : List (Case Stmt) → List Node
  | [] => []
  | ⟨k, key, body⟩ :: cases =>
    .segment ⟨false, k, key, body⟩ :: (listingList body ++ listingCases cases)
termination_by structural cases => cases

end

/-- The listing of a list goes statement by statement. -/
theorem listingList_eq (ss : List Stmt) : listingList ss = ss.flatMap listing := by
  induction ss with
  | nil => rfl
  | cons s ss ih => rw [listingList, ih, List.flatMap_cons]

end Stmt

/-- The segment and all statements and segments in it. -/
def Segment.listing (g : Segment) : List Node := .segment g :: g.body.flatMap Stmt.listing

namespace Stmt

theorem listingClauses_eq (clauses : List (Clause Stmt)) :
    listingClauses clauses = (clauses.map Clause.segment).flatMap Segment.listing := by
  induction clauses with
  | nil => rfl
  | cons c clauses ih =>
    rw [listingClauses, ih, listingList_eq, List.map_cons, List.flatMap_cons]
    rfl

theorem listingCases_eq (cases : List (Case Stmt)) :
    listingCases cases = (cases.map Case.segment).flatMap Segment.listing := by
  induction cases with
  | nil => rfl
  | cons c cases ih =>
    rw [listingCases, ih, listingList_eq, List.map_cons, List.flatMap_cons]
    rfl

/-- A listing begins with the statement and goes on segment by segment. -/
theorem listing_eq (s : Stmt) : s.listing = .stmt s :: s.segments.flatMap Segment.listing := by
  cases s with
  | leaf k l => rfl
  | block k body => simp [listing, segments, Segment.listing, listingList_eq]
  | «while» k cond body => simp [listing, segments, Segment.listing, listingList_eq]
  | conditional k cond body elseifs otherwise =>
    rw [listing, segments, listingClauses_eq, listingList_eq, List.map_cons, List.cons_append,
      List.flatMap_cons, List.flatMap_append]
    cases otherwise with
    | none => rfl
    | some o => simp [listingOtherwise, Segment.listing, Otherwise.segment, Clause.segment,
        listingList_eq]
  | switch k subject cases => rw [listing, segments, listingCases_eq]

end Stmt

/-- All statements and segments of a program, in the order of the text. -/
def Program.listing (p : Program) : List Node := p.stmts.flatMap Stmt.listing

/-! ### Dispatching segment by segment -/

/-- What is added behind the body of a branch when it becomes a case: a `break`, where cases
are to be ended and the body does not end in a jump. -/
def ending (options : SwitchOptions) (body : List Stmt) : List Stmt :=
  if options.terminate && !endsInJump body then [.leaf [] .break] else []

theorem caseBody_eq (options : SwitchOptions) (body : List Stmt) :
    (if options.terminate then terminate body else body) = body ++ ending options body := by
  unfold terminate ending
  cases options.terminate <;> cases endsInJump body <;> simp

/-- Whatever is added is a `break` that no comment leads. -/
theorem eq_break_of_mem_ending {options : SwitchOptions} {body : List Stmt} {s : Stmt}
    (h : s ∈ ending options body) : options.terminate = true ∧ s = .leaf [] .break := by
  unfold ending at h
  split at h
  · next hend =>
    rw [Bool.and_eq_true] at hend
    exact ⟨hend.1, List.mem_singleton.mp h⟩
  · cases h

/-- The segment that a segment becomes.  The condition of a branch is replaced by its key. -/
def Segment.dispatch (options : SwitchOptions) (g : Segment) : Segment where
  guarded := false
  comments := g.comments
  label := if g.guarded then g.label.map Expr.key else g.label
  body := (g.body.map fun s => (s.dispatch options).value) ++
    if g.guarded then ending options g.body else []

namespace Stmt

variable (options : SwitchOptions)

theorem value_dispatchClauses (clauses : List (Clause Stmt)) :
    (dispatchClauses options clauses).value =
      clauses.map fun c => ⟨c.comments, c.cond, (dispatchList options c.body).value⟩ := by
  induction clauses with
  | nil => rfl
  | cons c clauses ih =>
    simp only [dispatchClauses, Traced.value_bind, Traced.value_pure, ih, List.map_cons]

theorem value_dispatchOtherwise (otherwise : Option (Otherwise Stmt)) :
    (dispatchOtherwise options otherwise).value =
      otherwise.map fun o => ⟨o.comments, (dispatchList options o.body).value⟩ := by
  cases otherwise <;> rfl

theorem value_dispatchCases (cases : List (Case Stmt)) :
    (dispatchCases options cases).value =
      cases.map fun c => ⟨c.comments, c.key, (dispatchList options c.body).value⟩ := by
  induction cases with
  | nil => rfl
  | cons c cases ih =>
    simp only [dispatchCases, Traced.value_bind, Traced.value_pure, ih, List.map_cons]

theorem ending_dispatch (body : List Stmt) :
    ending options (dispatchList options body).value = ending options body := by
  unfold ending
  rw [endsInJump_dispatch]

/-- The branches of a conditional become cases with keys. -/
theorem segments_branches (branches : List (Clause Stmt)) :
    ((dispatchClauses options branches).value.map
        fun c => c.toCase options c.cond.key).map Case.segment =
      (branches.map Clause.segment).map (Segment.dispatch options) := by
  rw [value_dispatchClauses, List.map_map, List.map_map, List.map_map]
  apply List.map_congr_left
  intro c _
  simp only [Function.comp_apply, Clause.toCase, caseBody_eq, ending_dispatch]
  rw [value_dispatchList]
  rfl

/-- The `else` clause of a conditional becomes the default case. -/
theorem segments_otherwise (otherwise : Option (Otherwise Stmt)) :
    ((dispatchOtherwise options otherwise).value.map Otherwise.toCase).toList.map Case.segment =
      (otherwise.map Otherwise.segment).toList.map (Segment.dispatch options) := by
  cases otherwise with
  | none => rfl
  | some o =>
    simp [value_dispatchOtherwise, Otherwise.toCase, Otherwise.segment, Case.segment,
      Segment.dispatch]

/-- **Dispatching goes segment by segment**: the segments of a dispatched statement are those
that its segments become. -/
theorem segments_dispatch (s : Stmt) :
    (s.dispatch options).value.segments = s.segments.map (Segment.dispatch options) := by
  cases s with
  | leaf k l => rfl
  | block k body => simp [segments, Segment.dispatch]
  | «while» k cond body => simp [segments, Segment.dispatch]
  | conditional k cond body elseifs otherwise =>
    -- the cases are those of the branches, and behind them that of the `else` clause
    rw [value_dispatch_conditional, Switch.stmt, segments, segments, Chain.cases_toSwitch,
      List.map_append, List.map_append, ← segments_branches, ← segments_otherwise]
    rfl
  | switch k subject cases =>
    rw [value_dispatch_switch, segments, segments, value_dispatchCases, List.map_map, List.map_map]
    apply List.map_congr_left
    intro c _
    simp [Case.segment, Segment.dispatch]

/-- No dispatched statement is a conditional. -/
@[simp] theorem isConditional_dispatch (s : Stmt) :
    (s.dispatch options).value.isConditional = false := by
  cases s <;> rfl

@[simp] theorem comments_dispatch (s : Stmt) :
    (s.dispatch options).value.comments = s.comments := by
  cases s <;> rfl

/-- A statement in a dispatched segment is a dispatched statement of the segment, or the
`break` that ends the branch. -/
theorem exists_of_mem_body_dispatch {g : Segment} {u : Stmt}
    (h : u ∈ (g.dispatch options).body) :
    (∃ t ∈ g.body, u = (t.dispatch options).value) ∨
      (options.terminate = true ∧ u = leaf [] .break) := by
  -- what a segment becomes is its dispatched statements and then what is added
  rcases List.mem_append.mp h with h | h
  · obtain ⟨t, ht, rfl⟩ := List.mem_map.mp h
    exact Or.inl ⟨t, ht, rfl⟩
  · split at h
    · exact Or.inr (eq_break_of_mem_ending h)
    · cases h

end Stmt

end Casework
