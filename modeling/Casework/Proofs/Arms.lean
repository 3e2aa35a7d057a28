import Mathlib.Data.List.Forall2
import Casework.Proofs.Conditional

/-!
# The match of the first conditional

A match is made from the first conditional of a program, in the order of the text and
at any depth.  Each of its branches becomes an arm, and so does its `else` clause: seen
as segments they are treated alike, and the number of a branch is its place among the
segments.  An arm needs a body with exactly one statement that is not empty, and this
statement has to be an `echo`.  The first segment without such a body is the one that
the error names.

An arm takes the comments of its segment: those of the clause, then those of the empty
statements, and those of the `echo` statement last.  None is lost and none repeated, but
what stands behind the `echo` statement comes before what leads it.  So the comments keep
their order exactly where these two could change places.

## Main definitions

* `Program.firstConditional?` — the first conditional, in the order of the text.
* `Segment.code`, `Segment.echoes` — the statements of a segment that are not empty, and
  whether they are a single `echo`.
* `Segment.toArm` — the arm that a segment becomes.
* `Collects` — the arms of some segments, or the error for the first that has none.
* `Stmt.chainComments`, `Segment.inOrder` — the comments of a conditional in the order of
  the text, and whether an arm keeps them so.

## Main results

* `Program.firstChain?_eq` — the search finds the first conditional.
* `Chain.collects_toArms` — the arms of a chain are those of its segments.
* `Program.toMatch_firstConditional` — **there is a match exactly when every branch is a
  single `echo`, and otherwise the first other branch is named**.
* `Program.comments_toMatch` — **the arms have the comments of their branches, in the order
  of the text exactly where those of the `echo` and those behind it could change places**.
-/

namespace Casework

/-! ### The first conditional -/

/-- The conditional that the node is, if it is one. -/
def Node.conditional? : Node → Option Stmt
  | .stmt s => if s.isConditional then some s else none
  | .segment _ => none

/-- The comments and the chain of the conditional that the node is. -/
def Node.chain? : Node → Option (List Comment × Chain)
  | .stmt s => s.chain?.map (s.comments, ·)
  | .segment _ => none

/-- The first conditional of a program, at any depth, in the order of the text. -/
def Program.firstConditional? (p : Program) : Option Stmt :=
  p.listing.findSome? Node.conditional?

section FirstHit

variable {α β γ : Type}

theorem findSome?_flatMap (l : List α) (f : α → List β) (h : β → Option γ) :
    (l.flatMap f).findSome? h = l.findSome? fun a => (f a).findSome? h := by
  induction l with
  | nil => rfl
  | cons a l ih =>
    rw [List.flatMap_cons, List.findSome?_append, ih, List.findSome?_cons]
    cases (f a).findSome? h <;> rfl

theorem findSome?_congr {l : List α} {f g : α → Option β} (h : ∀ a ∈ l, f a = g a) :
    l.findSome? f = l.findSome? g := by
  induction l with
  | nil => rfl
  | cons a l ih =>
    rw [List.findSome?_cons, List.findSome?_cons, h a List.mem_cons_self,
      ih fun b hb => h b (List.mem_cons_of_mem a hb)]

end FirstHit

namespace Stmt

theorem firstChainInCases?_eq_findSome? (cases : List (Case Stmt)) :
    firstChainInCases? cases = cases.findSome? fun c => c.body.findSome? firstChain? := by
  induction cases with
  | nil => rfl
  | cons c cases ih =>
    rw [firstChainInCases?, ih, firstChainIn?_eq_findSome?, List.findSome?_cons]
    cases c.body.findSome? firstChain? <;> rfl

/-- The search looks at the statement itself, and then through its segments. -/
theorem firstChain?_eq_or (s : Stmt) : s.firstChain? =
    (Node.stmt s).chain?.or (s.segments.findSome? fun g => g.body.findSome? firstChain?) := by
  cases s with
  | leaf k l => rfl
  | block k body =>
    rw [firstChain?, firstChainIn?_eq_findSome?, segments, List.findSome?_singleton]
    rfl
  | «while» k cond body =>
    rw [firstChain?, firstChainIn?_eq_findSome?, segments, List.findSome?_singleton]
    rfl
  | conditional k cond body elseifs otherwise => rfl
  | switch k subject cases =>
    rw [firstChain?, firstChainInCases?_eq_findSome?, segments, List.findSome?_map]
    rfl

/-- What the search finds in a statement is the first chain of its listing. -/
theorem firstChain?_eq_findSome? (s : Stmt) : s.firstChain? = s.listing.findSome? Node.chain? := by
  induction s using bySegments with
  | step s ih =>
    -- a segment is no chain, so its listing is searched from its first statement on
    have hsegment : ∀ g ∈ s.segments,
        g.body.findSome? firstChain? = g.listing.findSome? Node.chain? := by
      intro g hg
      rw [Segment.listing, List.findSome?_cons, findSome?_flatMap]
      exact findSome?_congr (ih g hg)
    rw [firstChain?_eq_or, listing_eq, List.findSome?_cons, findSome?_flatMap,
      findSome?_congr hsegment]
    cases (Node.stmt s).chain? <;> rfl

theorem exists_eq_conditional {s : Stmt} (h : s.isConditional = true) :
    ∃ k cond body elseifs otherwise, s = conditional k cond body elseifs otherwise := by
  cases s with
  | conditional k cond body elseifs otherwise => exact ⟨k, cond, body, elseifs, otherwise, rfl⟩
  | _ => cases h

end Stmt

/-- A node is a chain exactly when it is a conditional. -/
theorem Node.chain?_eq (node : Node) :
    node.chain? = node.conditional?.bind fun s => (Node.stmt s).chain? := by
  cases node with
  | stmt s => cases s <;> rfl
  | segment g => rfl

namespace Program

variable {p : Program} {s : Stmt}

/-- The search finds the first conditional. -/
theorem firstChain?_eq (p : Program) :
    p.firstChain? = p.firstConditional?.bind fun s => (Node.stmt s).chain? := by
  have hlisting : p.firstChain? = p.listing.findSome? Node.chain? := by
    rw [firstChain?, Stmt.firstChainIn?_eq_findSome?, listing, findSome?_flatMap]
    exact findSome?_congr fun s _ => s.firstChain?_eq_findSome?
  rw [hlisting, firstConditional?]
  induction p.listing with
  | nil => rfl
  | cons node nodes ih =>
    rw [List.findSome?_cons, List.findSome?_cons, node.chain?_eq]
    cases hnode : node.conditional? with
    | none => exact ih
    | some s =>
      -- what is a conditional has a chain
      cases node with
      | segment g => cases hnode
      | stmt t =>
        cases t with
        | conditional k cond body elseifs otherwise =>
          cases hnode
          rfl
        | _ => cases hnode

/-- Where no conditional stands in a statement before the first conditional at the top level,
the search finds the chain of the latter. -/
theorem firstChain?_eq_chain? {p : Program}
    (h : ∀ s ∈ p.stmts.takeWhile (!·.isConditional), s.hasConditional = false) :
    p.firstChain?.map Prod.snd = p.chain? := by
  obtain ⟨tag, stmts⟩ := p
  rw [firstChain?, Stmt.firstChainIn?_eq_findSome?, chain?]
  induction stmts with
  | nil => rfl
  | cons s ss ih =>
    rw [List.findSome?_cons, List.findSome?_cons]
    cases hs : s.isConditional with
    | true =>
      obtain ⟨k, cond, body, elseifs, otherwise, rfl⟩ := Stmt.exists_eq_conditional hs
      rfl
    | false =>
      simp only [List.takeWhile_cons, hs, Bool.not_false, if_true, List.forall_mem_cons] at h
      have hnone : s.firstChain? = none :=
        (Stmt.iff_of_descends Stmt.descends_firstChain? Stmt.descends_hasConditional s).mpr h.1
      have hchain : s.chain? = none := by
        cases s with
        | conditional k cond body elseifs otherwise => cases hs
        | _ => rfl
      rw [hnone, hchain]
      exact ih h.2

/-- A program with a conditional has a first one. -/
theorem exists_firstConditional (h : p.hasConditional = true) :
    ∃ k cond body elseifs otherwise,
      p.firstConditional? = some (.conditional k cond body elseifs otherwise) := by
  obtain ⟨node, hmem, hnode⟩ := List.any_eq_true.mp h
  have hsome : p.firstConditional?.isSome = true := by
    rw [firstConditional?, List.findSome?_isSome_iff]
    refine ⟨node, hmem, ?_⟩
    cases node with
    | segment g => cases hnode
    | stmt s =>
      have hs : s.isConditional = true := hnode
      rw [Node.conditional?, if_pos hs]
      rfl
  obtain ⟨s, hs⟩ := Option.isSome_iff_exists.mp hsome
  obtain ⟨found, -, hfound⟩ := List.exists_of_findSome?_eq_some hs
  cases found with
  | segment g => cases hfound
  | stmt t =>
    rw [Node.conditional?] at hfound
    split at hfound
    · next ht =>
      obtain rfl := Option.some.inj hfound
      obtain ⟨k, cond, body, elseifs, otherwise, rfl⟩ := Stmt.exists_eq_conditional ht
      exact ⟨k, cond, body, elseifs, otherwise, hs⟩
    · cases hfound

end Program

/-! ### The arms of segments -/

namespace Segment

/-- The statements of the segment that are not empty. -/
def code (g : Segment) : List Stmt := g.body.filter (!·.isNop)

/-- The segment holds a single statement, empty ones apart, and it is an `echo`. -/
def echoes (g : Segment) : Bool :=
  match g.code with
  | [.leaf _ (.echo _)] => true
  | _ => false

/-- The arm that the segment becomes, or what is wrong with it. -/
def toArm (g : Segment) : Except BranchShape (Arm Expr) := armOf g.comments g.label g.body

variable {g : Segment} {arm : Arm Expr} {shape : BranchShape}

theorem exists_code_of_echoes (h : g.echoes = true) :
    ∃ k operands, g.code = [.leaf k (.echo operands)] := by
  unfold echoes at h
  split at h
  · next k operands hcode => exact ⟨k, operands, hcode⟩
  · cases h

theorem toArm_of_code {k : List Comment} {operands : List Expr}
    (h : g.code = [.leaf k (.echo operands)]) : g.toArm = .ok
      ⟨g.comments ++ nopComments g.body ++ k, g.label.map ([·]), .call echoName operands⟩ := by
  unfold code at h
  rw [toArm, armOf, h]

/-- A segment that is no single `echo` has no arm, and what is wrong with it is decided by
the number of its statements. -/
theorem exists_toArm_of_not_echoes (h : g.echoes = false) :
    ∃ shape, g.toArm = .error shape ∧ (shape = .notSingle ↔ g.code.length ≠ 1) := by
  have hcode : g.body.filter (!·.isNop) = g.code := rfl
  unfold echoes at h
  rw [toArm, armOf, hcode]
  cases hlist : g.code with
  | nil => exact ⟨.notSingle, rfl, by simp⟩
  | cons s ss =>
    cases ss with
    | nil =>
      refine ⟨.notEcho, ?_, by simp⟩
      rw [hlist] at h
      cases s with
      | leaf k l =>
        cases l with
        | echo operands => cases h
        | _ => rfl
      | _ => rfl
    | cons t ss =>
      refine ⟨.notSingle, ?_, by simp⟩
      cases s with
      | leaf k l => cases l <;> rfl
      | _ => rfl

theorem echoes_of_toArm (h : g.toArm = .ok arm) : g.echoes = true := by
  by_contra hfalse
  obtain ⟨shape, hshape, -⟩ := exists_toArm_of_not_echoes (Bool.eq_false_iff.mpr hfalse)
  rw [h] at hshape
  cases hshape

theorem not_echoes_of_toArm (h : g.toArm = .error shape) :
    g.echoes = false ∧ (shape = .notSingle ↔ g.code.length ≠ 1) := by
  have hecho : g.echoes = false := by
    rw [Bool.eq_false_iff]
    intro hecho
    obtain ⟨k, operands, hcode⟩ := exists_code_of_echoes hecho
    rw [toArm_of_code hcode] at h
    cases h
  obtain ⟨shape', hshape, hiff⟩ := exists_toArm_of_not_echoes hecho
  rw [h] at hshape
  cases hshape
  exact ⟨hecho, hiff⟩

end Segment

/-- What becomes of segments, the first of which has the given number: each becomes an arm, or
the first that does not is named with what is wrong with it. -/
inductive Collects (n : Nat) (gs : List Segment) : Except ConvertError (List (Arm Expr)) → Prop
  | all {arms : List (Arm Expr)} (h : List.Forall₂ (fun g arm => g.toArm = .ok arm) gs arms) :
    Collects n gs (.ok arms)
  | stops (before behind : List Segment) {g : Segment} {shape : BranchShape}
      (heq : gs = before ++ g :: behind) (hbefore : ∀ g' ∈ before, g'.echoes = true)
      (hg : g.toArm = .error shape) :
    Collects n gs (.error (.unsupported (n + before.length) shape))

/-- Segments that become arms are single `echo` statements. -/
theorem echoes_of_forall₂ {gs : List Segment} {arms : List (Arm Expr)}
    (h : List.Forall₂ (fun g arm => g.toArm = .ok arm) gs arms) : ∀ g ∈ gs, g.echoes = true := by
  induction h with
  | nil => exact fun g hg => absurd hg List.not_mem_nil
  | cons hfirst _ ih => exact List.forall_mem_cons.mpr ⟨Segment.echoes_of_toArm hfirst, ih⟩

theorem collects_armsFrom (n : Nat) (branches : List (Clause Stmt)) :
    Collects n (branches.map Clause.segment) (armsFrom n branches) := by
  induction branches generalizing n with
  | nil => exact .all .nil
  | cons branch branches ih =>
    have htail := ih (n + 1)
    rw [armsFrom, List.map_cons]
    cases harm : armOf branch.comments (some branch.cond) branch.body with
    | error shape =>
      exact .stops [] _ rfl (fun g hg => absurd hg List.not_mem_nil) harm
    | ok arm =>
      have hfirst : branch.segment.toArm = .ok arm := harm
      cases harms : armsFrom (n + 1) branches with
      | ok arms =>
        rw [harms] at htail
        cases htail with
        | all h => exact .all (.cons hfirst h)
      | error e =>
        rw [harms] at htail
        cases htail with
        | @stops before behind g shape heq hbefore hg =>
          -- the error of the further branches is passed on, with their numbers
          have hnumber : n + 1 + before.length = n + (branch.segment :: before).length := by
            rw [List.length_cons]
            omega
          rw [hnumber]
          refine .stops _ behind (by rw [heq, List.cons_append]) (fun g' hg' => ?_) hg
          rcases List.mem_cons.mp hg' with rfl | hg'
          · exact Segment.echoes_of_toArm hfirst
          · exact hbefore g' hg'

namespace Chain

/-- The segments of a chain, in the order of its text. -/
def segments (chain : Chain) : List Segment :=
  chain.branches.map Clause.segment ++ (chain.otherwise.map Otherwise.segment).toList

theorem toArms_of_error {chain : Chain} {e : ConvertError}
    (h : armsFrom 0 chain.branches = .error e) : chain.toArms = .error e := by
  rw [toArms, h]
  rfl

theorem toArms_of_none {chain : Chain} {arms : List (Arm Expr)}
    (h : armsFrom 0 chain.branches = .ok arms) (hotherwise : chain.otherwise = none) :
    chain.toArms = .ok arms := by
  rw [toArms, h, hotherwise]
  rfl

/-- The `else` clause has the number behind those of all branches. -/
theorem toArms_of_some {chain : Chain} {arms : List (Arm Expr)} {o : Otherwise Stmt}
    (h : armsFrom 0 chain.branches = .ok arms) (hotherwise : chain.otherwise = some o) :
    chain.toArms =
      (atBranch (chain.branches.map Clause.segment).length o.segment.toArm).map (arms ++ [·]) := by
  have htoArm : o.segment.toArm = armOf o.comments none o.body := rfl
  rw [toArms, h, hotherwise, htoArm, List.length_map]
  show (atBranch _ (armOf o.comments none o.body) >>= fun arm => pure (arms ++ [arm])) = _
  cases armOf o.comments none o.body <;> rfl

/-- The arms of a chain are those of its segments. -/
theorem collects_toArms (chain : Chain) : Collects 0 chain.segments chain.toArms := by
  have hbranches := collects_armsFrom 0 chain.branches
  rw [segments]
  cases harms : armsFrom 0 chain.branches with
  | error e =>
    rw [harms] at hbranches
    rw [toArms_of_error harms]
    cases hbranches with
    | @stops before behind g shape heq hbefore hg =>
      refine .stops before (behind ++ (chain.otherwise.map Otherwise.segment).toList) ?_ hbefore hg
      rw [heq, List.append_assoc, List.cons_append]
  | ok arms =>
    rw [harms] at hbranches
    cases hbranches with
    | all h =>
      cases hotherwise : chain.otherwise with
      | none =>
        rw [toArms_of_none harms hotherwise, Option.map_none, Option.toList_none, List.append_nil]
        exact .all h
      | some o =>
        rw [toArms_of_some harms hotherwise, Option.map_some, Option.toList_some]
        cases harm : o.segment.toArm with
        | error shape =>
          have hstops := Collects.stops (n := 0) _ [] rfl (echoes_of_forall₂ h) harm
          rwa [Nat.zero_add] at hstops
        | ok arm => exact .all (List.rel_append h (.cons harm .nil))

end Chain

/-! ### Comments of arms -/

/-- The comments of a conditional and of its branches, in the order of the text. -/
def Stmt.chainComments (s : Stmt) : List Comment :=
  s.comments ++ s.segments.flatMap fun g => g.comments ++ g.body.flatMap Stmt.comments

namespace Segment

/-- The comments that lead the first statement that is not empty, and those behind it, could
change places. -/
def inOrder (g : Segment) : Bool :=
  match g.body.dropWhile Stmt.isNop with
  | [] => true
  | s :: behind =>
    behind.flatMap Stmt.comments ++ s.comments == s.comments ++ behind.flatMap Stmt.comments

variable {g : Segment} {arm : Arm Expr}

/-- The one statement of a segment stands between empty ones. -/
theorem exists_body_eq {s : Stmt} (h : g.code = [s]) : ∃ before behind,
    g.body = before ++ s :: behind ∧ (∀ t ∈ before, t.isNop = true) ∧ s.isNop = false ∧
      ∀ t ∈ behind, t.isNop = true := by
  obtain ⟨before, behind, hbody, hbefore, hs, hbehind⟩ := List.filter_eq_cons_iff.mp h
  refine ⟨before, behind, hbody, fun t ht => by simpa using hbefore t ht, by simpa using hs, ?_⟩
  intro t ht
  simpa using List.filter_eq_nil_iff.mp hbehind t ht

/-- An arm has the comments of its segment, and keeps their order exactly where those of the
`echo` statement and those behind it could change places. -/
theorem comments_of_toArm (h : g.toArm = .ok arm) :
    arm.comments.Perm (g.comments ++ g.body.flatMap Stmt.comments) ∧
      (arm.comments = g.comments ++ g.body.flatMap Stmt.comments ↔ g.inOrder = true) := by
  obtain ⟨k, operands, hcode⟩ := exists_code_of_echoes (echoes_of_toArm h)
  rw [toArm_of_code hcode] at h
  obtain ⟨before, behind, hbody, hbefore, hs, hbehind⟩ := exists_body_eq hcode
  -- the empty statements are those before and those behind the `echo`
  have hnops : nopComments g.body =
      before.flatMap Stmt.comments ++ behind.flatMap Stmt.comments := by
    rw [nopComments, hbody, List.filter_append, List.filter_cons_of_neg (by simp [hs]),
      List.filter_eq_self.mpr hbefore, List.filter_eq_self.mpr hbehind, List.flatMap_append]
  have hall : g.body.flatMap Stmt.comments =
      before.flatMap Stmt.comments ++ (k ++ behind.flatMap Stmt.comments) := by
    rw [hbody, List.flatMap_append, List.flatMap_cons]
    rfl
  have hdrop : g.body.dropWhile Stmt.isNop = .leaf k (.echo operands) :: behind := by
    rw [hbody, List.dropWhile_append_of_pos hbefore, List.dropWhile_cons_of_neg (by simp [hs])]
  have harm : arm.comments = g.comments ++ (before.flatMap Stmt.comments ++
      (behind.flatMap Stmt.comments ++ k)) := by
    obtain rfl := (Except.ok.inj h).symm
    simp only [hnops, List.append_assoc]
  rw [harm, hall]
  refine ⟨(List.perm_append_comm.append_left _).append_left _, ?_⟩
  rw [List.append_cancel_left_eq, List.append_cancel_left_eq, inOrder, hdrop, beq_iff_eq]
  rfl

/-- The comments of arms are those of their segments in order exactly when they are so for
each arm. -/
theorem flatMap_comments_eq_iff {gs : List Segment} {arms : List (Arm Expr)}
    (h : List.Forall₂ (fun g arm => g.toArm = .ok arm) gs arms) :
    arms.flatMap Arm.comments =
      gs.flatMap (fun g => g.comments ++ g.body.flatMap Stmt.comments) ↔
        ∀ g ∈ gs, g.inOrder = true := by
  induction h with
  | nil => simp
  | @cons g arm gs arms hfirst _ ih =>
    obtain ⟨hperm, hiff⟩ := comments_of_toArm hfirst
    rw [List.flatMap_cons, List.flatMap_cons, List.forall_mem_cons, ← hiff, ← ih]
    constructor
    · -- an arm has as many comments as its segment
      exact fun heq => List.append_inj heq hperm.length_eq
    · rintro ⟨hcomments, hrest⟩
      rw [hcomments, hrest]

theorem conds_of_forall₂ {gs : List Segment} {arms : List (Arm Expr)}
    (h : List.Forall₂ (fun g arm => g.toArm = .ok arm) gs arms) :
    arms.map Arm.conds = gs.map fun g => g.label.map ([·]) := by
  induction h with
  | nil => rfl
  | cons hfirst _ ih =>
    obtain ⟨k, operands, hcode⟩ := exists_code_of_echoes (echoes_of_toArm hfirst)
    rw [toArm_of_code hcode] at hfirst
    cases hfirst
    rw [List.map_cons, List.map_cons, ih]

end Segment

/-! ### The match -/

namespace Program

variable {p : Program} {s m : Stmt}

/-- Without a conditional there is no match. -/
theorem toMatch_of_none (h : p.firstConditional? = none) :
    p.toMatch.value = .error .noConditional := by
  rw [toMatch_eq_noConditional_iff, firstChain?_eq, h]
  rfl

/-- The match of a program is made of the arms of its first conditional. -/
theorem exists_collects (h : p.firstConditional? = some s) : ∃ outcome,
    Collects 0 s.segments outcome ∧ p.toMatch.value =
      outcome.map fun arms => .leaf s.comments (.expr (.match (.lit (.bool true)) arms)) := by
  obtain ⟨found, -, hfound⟩ := List.exists_of_findSome?_eq_some h
  cases found with
  | segment g => cases hfound
  | stmt t =>
    cases t with
    | conditional k cond body elseifs otherwise =>
      cases hfound
      refine ⟨(Chain.of cond body elseifs otherwise).toArms,
        (Chain.of cond body elseifs otherwise).collects_toArms, ?_⟩
      rw [toMatch, firstChain?_eq, h]
      rfl
    | _ => cases hfound

/-- **There is a match exactly when every branch of the first conditional is a single
`echo`.**  It then has the conditions of the branches, and a last arm without one for the
`else` clause; otherwise the error names the first other branch and what is wrong with it. -/
theorem toMatch_firstConditional (h : p.hasConditional = true) :
    ∃ k cond body elseifs otherwise,
      let first := Stmt.conditional k cond body elseifs otherwise
      p.firstConditional? = some first ∧
      ((∃ m, p.toMatch.value = .ok m) ↔ ∀ g ∈ first.segments, g.echoes = true) ∧
      (∀ m, p.toMatch.value = .ok m → ∃ arms,
        m = .leaf k (.expr (.match (.lit (.bool true)) arms)) ∧
        arms.map Arm.conds = (cond :: elseifs.map Clause.cond).map (fun c => some [c]) ++
          (otherwise.map fun _ => none).toList ∧
        List.Forall₂ (fun g arm => ∃ j operands, g.code = [.leaf j (.echo operands)] ∧
          arm.body = .call (.name "echo") operands) first.segments arms) ∧
      (∀ e, p.toMatch.value = .error e → ∃ n shape g,
        e = .unsupported n shape ∧ first.segments[n]? = some g ∧ g.echoes = false ∧
        (∀ j < n, ∀ g' ∈ first.segments[j]?, g'.echoes = true) ∧
        (shape.message = "expected exactly one statement" ↔ g.code.length ≠ 1) ∧
        (shape.message = "expected an `echo` statement" ↔ g.code.length = 1)) := by
  obtain ⟨k, cond, body, elseifs, otherwise, hfirst⟩ := exists_firstConditional h
  refine ⟨k, cond, body, elseifs, otherwise, hfirst, ?_⟩
  obtain ⟨outcome, hcollects, hmatch⟩ := exists_collects hfirst
  rw [hmatch]
  cases hcollects with
  | @all arms harms =>
    refine ⟨⟨fun _ => echoes_of_forall₂ harms, fun _ => ⟨_, rfl⟩⟩, fun m hm => ?_, fun e he => ?_⟩
    · cases hm
      refine ⟨arms, rfl, ?_, ?_⟩
      · rw [Segment.conds_of_forall₂ harms]
        cases otherwise <;> simp [Stmt.segments, Clause.segment, Otherwise.segment]
      · refine harms.imp fun g arm harm => ?_
        obtain ⟨j, operands, hcode⟩ := Segment.exists_code_of_echoes (Segment.echoes_of_toArm harm)
        rw [Segment.toArm_of_code hcode] at harm
        cases harm
        exact ⟨j, operands, hcode, rfl⟩
    · cases he
  | @stops before behind g shape heq hbefore hg =>
    obtain ⟨hecho, hshape⟩ := Segment.not_echoes_of_toArm hg
    refine ⟨⟨fun hok => ?_, fun hall => ?_⟩, fun m hm => ?_, fun e he => ?_⟩
    · obtain ⟨m, hm⟩ := hok
      cases hm
    · have := hall g (by simp [heq])
      rw [hecho] at this
      cases this
    · cases hm
    · cases he
      refine ⟨_, shape, g, rfl, ?_, hecho, ?_, ?_, ?_⟩
      · simp [heq]
      · intro j hj g' hg'
        rw [Nat.zero_add] at hj
        rw [heq, List.getElem?_append_left hj] at hg'
        exact hbefore g' (List.mem_of_getElem? hg')
      · rw [← hshape]
        cases shape <;> decide
      · rw [← not_iff_not, ← ne_eq, ← ne_eq, ← hshape]
        cases shape <;> decide

/-- In a loop, a conditional with an `else` clause, whose first branch also holds an empty
statement. -/
theorem toMatch_firstConditional_loop :
    let p : Program := ⟨false, [.leaf [] .break, .while [] (.var "go")
      [.conditional [⟨"// chain"⟩] (.var "a")
        [.leaf [⟨"// none"⟩] .nop, .leaf [⟨"// one"⟩] (.echo [.lit (.int 1)])]
        [⟨[], .var "b", [.leaf [] (.echo [.var "x", .var "y"])]⟩]
        (some ⟨[⟨"// last"⟩], [.leaf [] (.echo [.lit (.int 2)])]⟩)],
      .conditional [] (.var "c") [] [] none]⟩
    p.hasConditional = true ∧ ∃ m, p.toMatch.value = .ok m := by
  intro p
  have hp : p.hasConditional = true := by decide
  obtain ⟨k, cond, body, elseifs, otherwise, hfirst, hiff, -⟩ := toMatch_firstConditional hp
  refine ⟨hp, hiff.mpr ?_⟩
  cases hfirst
  decide

/-- **The arms of a match have the comments of their branches**: none is lost and none
repeated, and they are in the order of the text exactly when in each branch the comments of the
`echo` statement and those behind it could change places. -/
theorem comments_toMatch (h : p.toMatch.value = .ok m) :
    ∃ s arms, p.firstConditional? = some s ∧
      m = .leaf s.comments (.expr (.match (.lit (.bool true)) arms)) ∧
      List.Forall₂ (fun g arm => arm.comments.Perm (g.comments ++ g.body.flatMap Stmt.comments))
        s.segments arms ∧
      (m.comments ++ arms.flatMap Arm.comments = s.chainComments ↔
        ∀ g ∈ s.segments, g.inOrder = true) := by
  cases hfirst : p.firstConditional? with
  | none =>
    rw [toMatch_of_none hfirst] at h
    cases h
  | some s =>
    obtain ⟨outcome, hcollects, hmatch⟩ := exists_collects hfirst
    rw [hmatch] at h
    cases hcollects with
    | stops => cases h
    | @all arms harms =>
      cases h
      refine ⟨s, arms, rfl, rfl, harms.imp fun g arm harm => (Segment.comments_of_toArm harm).1, ?_⟩
      rw [← Segment.flatMap_comments_eq_iff harms, Stmt.chainComments]
      exact iff_of_eq (List.append_cancel_left_eq _ _ _)

/-- Comments that lead the statement, an empty statement, the `echo` and the clauses. -/
theorem comments_toMatch_clauses :
    let p : Program := ⟨false, [.conditional [⟨"// chain"⟩] (.var "a")
      [.leaf [⟨"// none"⟩] .nop, .leaf [⟨"// one"⟩] (.echo [.lit (.int 1)]), .leaf [] .nop]
      [⟨[⟨"# second"⟩], .var "b", [.leaf [] (.echo [.var "x"]), .leaf [⟨"// behind"⟩] .nop]⟩]
      none]⟩
    let arms : List (Arm Expr) :=
      [⟨[⟨"// none"⟩, ⟨"// one"⟩], some [.var "a"], .call (.name "echo") [.lit (.int 1)]⟩,
        ⟨[⟨"# second"⟩, ⟨"// behind"⟩], some [.var "b"], .call (.name "echo") [.var "x"]⟩]
    let m : Stmt := .leaf [⟨"// chain"⟩] (.expr (.match (.lit (.bool true)) arms))
    p.toMatch.value = .ok m ∧ ∃ s, p.firstConditional? = some s ∧
      m.comments ++ arms.flatMap Arm.comments = s.chainComments := by
  intro p arms m
  have hm : p.toMatch.value = .ok m := rfl
  obtain ⟨s, arms', hs, hleaf, -, hiff⟩ := comments_toMatch hm
  have harms : arms = arms' := (Expr.match.inj (Leaf.expr.inj (Stmt.leaf.inj hleaf).2)).2
  rw [harms]
  refine ⟨hm, s, hs, hiff.mpr ?_⟩
  cases hs
  decide

/-- What stands behind the `echo` statement comes before what leads it. -/
theorem comments_toMatch_behind :
    let s : Stmt := .conditional [] (.var "a")
      [.leaf [⟨"// before"⟩] (.echo [.lit (.int 1)]), .leaf [⟨"// behind"⟩] .nop] [] none
    let arms : List (Arm Expr) :=
      [⟨[⟨"// behind"⟩, ⟨"// before"⟩], some [.var "a"], .call (.name "echo") [.lit (.int 1)]⟩]
    let m : Stmt := .leaf [] (.expr (.match (.lit (.bool true)) arms))
    (Program.mk false [s]).toMatch.value = .ok m ∧
      (Program.mk false [s]).firstConditional? = some s ∧
      m.comments ++ arms.flatMap Arm.comments ≠ s.chainComments :=
  ⟨rfl, rfl, by decide⟩

end Program

end Casework
