import Casework.Proofs.Nesting

/-!
# What dispatching keeps

Dispatching moves bodies and comments from conditionals into switches.  Read in the
order of the text, all comments of a program stay the same, and so do its leaves
with the comments that lead them.  When cases are to be ended, the leaves are
joined by the added `break` statements: each ends a case that a branch of the program
has become, and nothing else of the tree is changed by it.

## Main definitions

* `Program.comments`, `Program.leaves` — comments and leaves in the order of the text.
* `Inserts` — a list is another one with copies of an element inserted.
* `Carries` — what is found at nodes can be compared before and after dispatching.
* `Ended`, `Program.Ended` — a tree is another one with the cases of branches ended.

## Main results

* `Carries.program` — what can be compared node by node can be compared for programs.
* `Stmt.ended_dispatch` — cases that are to be ended differ by their ends alone.
* `Program.comments_leaves_dispatch` — **nothing is lost, repeated or moved**.
-/

namespace Casework

/-! ### Comments and leaves -/

/-- The comments at the head of a node. -/
def Node.comments : Node → List Comment
  | .stmt s => s.comments
  | .segment g => g.comments

/-- The leaf that a node is, if it is one, with the comments that lead it. -/
def Node.leaves : Node → List (List Comment × Leaf)
  | .stmt (.leaf k l) => [(k, l)]
  | _ => []

namespace Program

/-- All comments of a program, in the order of the text. -/
def comments (p : Program) : List Comment := p.listing.flatMap Node.comments

/-- All leaves of a program with the comments that lead them, in the order of the text. -/
def leaves (p : Program) : List (List Comment × Leaf) := p.listing.flatMap Node.leaves

end Program

/-! ### Lists with insertions -/

/-- The second list is the first one with copies of the element inserted. -/
inductive Inserts {α : Type} (x : α) : List α → List α → Prop
  | nil : Inserts x [] []
  | keep (a : α) {as bs : List α} : Inserts x as bs → Inserts x (a :: as) (a :: bs)
  | insert {as bs : List α} : Inserts x as bs → Inserts x as (x :: bs)

namespace Inserts

variable {α : Type} {x : α} {as bs cs ds : List α}

theorem refl (as : List α) : Inserts x as as := by
  induction as with
  | nil => exact .nil
  | cons a as ih => exact .keep a ih

theorem append (h : Inserts x as bs) (h' : Inserts x cs ds) :
    Inserts x (as ++ cs) (bs ++ ds) := by
  induction h with
  | nil => exact h'
  | keep a _ ih => exact .keep a ih
  | insert _ ih => exact .insert ih

end Inserts

/-! ### Listings before and after -/

/-- What is found at nodes can be compared before and after dispatching: the relation goes
with appending, it holds at each node, and it leaves the added `break` out of account. -/
structure Carries {α : Type} (options : SwitchOptions) (f : Node → List α)
    (R : List α → List α → Prop) : Prop where
  nil : R [] []
  append : ∀ {as bs cs ds}, R as bs → R cs ds → R (as ++ cs) (bs ++ ds)
  stmt : ∀ s : Stmt, R (f (.stmt s)) (f (.stmt (s.dispatch options).value))
  segment : ∀ g : Segment, R (f (.segment g)) (f (.segment (g.dispatch options)))
  ending : options.terminate = true → R [] (f (.stmt (.leaf [] .break)))

namespace Carries

variable {α β γ : Type} {options : SwitchOptions} {f : Node → List α}
  {R : List α → List α → Prop}

/-- Pieces that are related make related lists. -/
theorem flatMap (hR : Carries options f R) {a : β → List α} {b : γ → List α} {g : β → γ}
    (l : List β) (h : ∀ x ∈ l, R (a x) (b (g x))) : R (l.flatMap a) ((l.map g).flatMap b) := by
  induction l with
  | nil => exact hR.nil
  | cons x l ih =>
    rw [List.map_cons, List.flatMap_cons, List.flatMap_cons]
    apply hR.append
    · exact h x List.mem_cons_self
    · exact ih fun y hy => h y (List.mem_cons_of_mem x hy)

/-- What is added behind a branch is left out of account. -/
theorem added (hR : Carries options f R) (g : Segment) :
    R [] ((if g.guarded then Casework.ending options g.body else []).flatMap
      fun t => t.listing.flatMap f) := by
  unfold Casework.ending
  split
  · split
    · next hend =>
      rw [Bool.and_eq_true] at hend
      simpa [Stmt.listing] using hR.ending hend.1
    · exact hR.nil
  · exact hR.nil

/-- What is found in a statement is related to what is found in the dispatched one. -/
theorem listing (hR : Carries options f R) (s : Stmt) :
    R (s.listing.flatMap f) ((s.dispatch options).value.listing.flatMap f) := by
  induction s using Stmt.bySegments with
  | step s ih =>
    rw [Stmt.listing_eq, Stmt.listing_eq (s.dispatch options).value, Stmt.segments_dispatch,
      List.flatMap_cons, List.flatMap_cons, List.flatMap_assoc, List.flatMap_assoc]
    apply hR.append (hR.stmt s)
    apply hR.flatMap
    intro g hg
    rw [Segment.listing, Segment.listing, List.flatMap_cons, List.flatMap_cons,
      List.flatMap_assoc, List.flatMap_assoc]
    apply hR.append (hR.segment g)
    -- first the statements of the segment, then what is added behind them
    have hbody : R (g.body.flatMap fun t => t.listing.flatMap f)
        ((g.body.map fun t => (t.dispatch options).value).flatMap fun t => t.listing.flatMap f) :=
      hR.flatMap g.body (ih g hg)
    have hwhole := hR.append hbody (hR.added g)
    rwa [List.append_nil, ← List.flatMap_append] at hwhole

/-- The same for a program. -/
theorem program (hR : Carries options f R) (p : Program) :
    R (p.listing.flatMap f) ((p.dispatch options).value.listing.flatMap f) := by
  have hstmts : (p.dispatch options).value.stmts =
      p.stmts.map fun s => (s.dispatch options).value := Stmt.value_dispatchList options p.stmts
  rw [Program.listing, Program.listing, hstmts, List.flatMap_assoc, List.flatMap_assoc]
  exact hR.flatMap p.stmts fun s _ => hR.listing s

end Carries

/-- Comments stay as they are. -/
theorem carries_comments (options : SwitchOptions) : Carries options Node.comments Eq where
  nil := rfl
  append := by
    rintro as _ cs _ rfl rfl
    rfl
  stmt s := (Stmt.comments_dispatch options s).symm
  segment _ := rfl
  ending _ := rfl

theorem Node.leaves_dispatch (options : SwitchOptions) (s : Stmt) :
    Node.leaves (.stmt (s.dispatch options).value) = Node.leaves (.stmt s) := by
  cases s <;> rfl

/-- Without cases to be ended, leaves stay as they are. -/
theorem carries_leaves : Carries ⟨false⟩ Node.leaves Eq where
  nil := rfl
  append := by
    rintro as _ cs _ rfl rfl
    rfl
  stmt s := (Node.leaves_dispatch ⟨false⟩ s).symm
  segment _ := rfl
  ending := nofun

/-- With cases to be ended, leaves are joined by `break` statements. -/
theorem carries_leaves_inserts : Carries ⟨true⟩ Node.leaves (Inserts ([], .break)) where
  nil := .nil
  append := Inserts.append
  stmt s := by
    rw [Node.leaves_dispatch]
    exact .refl _
  segment _ := .nil
  ending _ := .insert .nil

/-! ### Trees with ended cases -/

mutual

/-- Two statements that stand for the same one differ by the ends of cases alone: the last
is the second with a `break` that no comment leads behind some of the cases that branches
of the first have become. -/
inductive Ended : Stmt → Stmt → Stmt → Prop
  | leaf (k : List Comment) (l : Leaf) : Ended (.leaf k l) (.leaf k l) (.leaf k l)
  | block (k : List Comment) {ss ts us : List Stmt} :
    EndedList ss ts us → Ended (.block k ss) (.block k ts) (.block k us)
  | while (k : List Comment) (cond : Expr) {ss ts us : List Stmt} :
    EndedList ss ts us → Ended (.while k cond ss) (.while k cond ts) (.while k cond us)
  | conditional (k : List Comment) (cond subject : Expr) {body : List Stmt}
      {elseifs : List (Clause Stmt)} {otherwise : Option (Otherwise Stmt)}
      {ts us : List (Case Stmt)} :
    EndedBranches (⟨[], cond, body⟩ :: elseifs) otherwise ts us →
      Ended (.conditional k cond body elseifs otherwise) (.switch k subject ts)
        (.switch k subject us)
  | switch (k : List Comment) (subject : Expr) {cs ts us : List (Case Stmt)} :
    EndedCases cs ts us → Ended (.switch k subject cs) (.switch k subject ts) (.switch k subject us)

/-- The same for the statements of a list, one by one. -/
inductive EndedList : List Stmt → List Stmt → List Stmt → Prop
  | nil : EndedList [] [] []
  | cons {s t u : Stmt} {ss ts us : List Stmt} :
    Ended s t u → EndedList ss ts us → EndedList (s :: ss) (t :: ts) (u :: us)

/-- The same for the cases of a switch, none of which is ended. -/
inductive EndedCases : List (Case Stmt) → List (Case Stmt) → List (Case Stmt) → Prop
  | nil : EndedCases [] [] []
  | cons (k : List Comment) (key : Option Expr) {body t u : List Stmt}
      {cs ts us : List (Case Stmt)} :
    EndedList body t u → EndedCases cs ts us →
      EndedCases (⟨k, key, body⟩ :: cs) (⟨k, key, t⟩ :: ts) (⟨k, key, u⟩ :: us)

/-- The same for the branches of a conditional and its `else` clause.  A branch becomes a case
with a key, which may be ended, and the `else` clause becomes the default, which is not. -/
inductive EndedBranches : List (Clause Stmt) → Option (Otherwise Stmt) → List (Case Stmt) →
    List (Case Stmt) → Prop
  | nil : EndedBranches [] none [] []
  | otherwise (k : List Comment) {body t u : List Stmt} :
    EndedList body t u → EndedBranches [] (some ⟨k, body⟩) [⟨k, none, t⟩] [⟨k, none, u⟩]
  | cons (k : List Comment) (cond key : Expr) {body t u added : List Stmt}
      {branches : List (Clause Stmt)} {otherwise : Option (Otherwise Stmt)}
      {ts us : List (Case Stmt)} :
    EndedList body t u → added = [] ∨ added = [.leaf [] .break] →
      EndedBranches branches otherwise ts us →
        EndedBranches (⟨k, cond, body⟩ :: branches) otherwise (⟨k, some key, t⟩ :: ts)
          (⟨k, some key, u ++ added⟩ :: us)

end

namespace Stmt

/-- The statement is dispatched to the same tree whether or not cases are to be ended, the
ends of cases apart. -/
abbrev EndsAlike (s : Stmt) : Prop :=
  Ended s (s.dispatch ⟨false⟩).value (s.dispatch ⟨true⟩).value

theorem endedList_dispatch (body : List Stmt) (h : ∀ s ∈ body, s.EndsAlike) :
    EndedList body (dispatchList ⟨false⟩ body).value (dispatchList ⟨true⟩ body).value := by
  induction body with
  | nil => exact .nil
  | cons s ss ih =>
    apply EndedList.cons
    · exact h s List.mem_cons_self
    · exact ih fun t ht => h t (List.mem_cons_of_mem s ht)

theorem endedCases_dispatch (cases : List (Case Stmt))
    (h : ∀ c ∈ cases, ∀ s ∈ c.body, s.EndsAlike) :
    EndedCases cases (dispatchCases ⟨false⟩ cases).value (dispatchCases ⟨true⟩ cases).value := by
  induction cases with
  | nil => exact .nil
  | cons c cases ih =>
    apply EndedCases.cons
    · exact endedList_dispatch c.body (h c List.mem_cons_self)
    · exact ih fun d hd => h d (List.mem_cons_of_mem c hd)

theorem endedBranches_dispatch (branches : List (Clause Stmt))
    (otherwise : Option (Otherwise Stmt)) (hbranches : ∀ c ∈ branches, ∀ s ∈ c.body, s.EndsAlike)
    (hotherwise : ∀ o ∈ otherwise, ∀ s ∈ o.body, s.EndsAlike) :
    EndedBranches branches otherwise
      ((dispatchClauses ⟨false⟩ branches).value.map (fun c => c.toCase ⟨false⟩ c.cond.key) ++
        ((dispatchOtherwise ⟨false⟩ otherwise).value.map Otherwise.toCase).toList)
      ((dispatchClauses ⟨true⟩ branches).value.map (fun c => c.toCase ⟨true⟩ c.cond.key) ++
        ((dispatchOtherwise ⟨true⟩ otherwise).value.map Otherwise.toCase).toList) := by
  induction branches with
  | nil =>
    cases otherwise with
    | none => exact .nil
    | some o => exact .otherwise o.comments (endedList_dispatch o.body (hotherwise o rfl))
  | cons c branches ih =>
    have hbody := endedList_dispatch c.body (hbranches c List.mem_cons_self)
    have hadded : ending ⟨true⟩ (dispatchList ⟨true⟩ c.body).value = [] ∨
        ending ⟨true⟩ (dispatchList ⟨true⟩ c.body).value = [leaf [] .break] := by
      unfold ending
      split
      · exact Or.inr rfl
      · exact Or.inl rfl
    -- whether a `break` is added is decided by the dispatched body, and either is allowed for
    have hcons := EndedBranches.cons c.comments c.cond c.cond.key hbody hadded
      (ih fun d hd => hbranches d (List.mem_cons_of_mem c hd))
    rw [← caseBody_eq] at hcons
    exact hcons

/-- Whether or not cases are to be ended makes no difference but at the ends of cases that
branches have become. -/
theorem ended_dispatch (s : Stmt) : s.EndsAlike := by
  induction s using bySegments with
  | step s ih =>
    cases s with
    | leaf k l => exact .leaf k l
    | block k body => exact .block k (endedList_dispatch body (ih _ List.mem_cons_self))
    | «while» k cond body =>
      exact .while k cond (endedList_dispatch body (ih _ List.mem_cons_self))
    | conditional k cond body elseifs otherwise =>
      rw [EndsAlike, value_dispatch_conditional, value_dispatch_conditional, Switch.stmt,
        Switch.stmt, Chain.cases_toSwitch, Chain.cases_toSwitch]
      apply Ended.conditional k cond
      apply endedBranches_dispatch (⟨[], cond, body⟩ :: elseifs) otherwise
      · intro c hc
        exact ih c.segment (List.mem_append_left _ (List.mem_map_of_mem hc))
      · rintro o rfl
        exact ih o.segment (List.mem_append_right _ List.mem_cons_self)
    | switch k subject cases =>
      apply Ended.switch k subject
      apply endedCases_dispatch
      intro c hc
      exact ih c.segment (List.mem_map_of_mem hc)

end Stmt

namespace Program

/-- Two programs that stand for the same one differ by the ends of cases alone. -/
structure Ended (p q r : Program) : Prop where
  openTag : q.openTag = p.openTag ∧ r.openTag = p.openTag
  stmts : EndedList p.stmts q.stmts r.stmts

/-- **Nothing is lost, repeated or moved**: in the order of the text the comments stay the
same, and so do the leaves, but for the `break` statements behind cases that branches have
become when these are to be ended. -/
theorem comments_leaves_dispatch (p : Program) (options : SwitchOptions) :
    (p.dispatch options).value.comments = p.comments ∧
      (p.dispatch ⟨false⟩).value.leaves = p.leaves ∧
      Inserts ([], .break) p.leaves (p.dispatch ⟨true⟩).value.leaves ∧
      p.Ended (p.dispatch ⟨false⟩).value (p.dispatch ⟨true⟩).value := by
  refine ⟨?_, ?_, ?_, ?_⟩
  · exact ((carries_comments options).program p).symm
  · exact (carries_leaves.program p).symm
  · exact carries_leaves_inserts.program p
  · exact ⟨⟨rfl, rfl⟩, Stmt.endedList_dispatch p.stmts fun s _ => s.ended_dispatch⟩

end Program

end Casework
