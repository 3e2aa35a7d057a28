import Casework.Proofs.Expression
import Casework.Tree.Same

/-!
# Binding strengths and the tower

Operands with binary operators between them can be grouped in many ways.  The binding
strengths of the operators choose one of them: right of an operator stands what binds
tighter, left of it what binds no looser, and tighter if the operator compares.  The
tower of levels knows nothing of these strengths, but it reads such a sequence as the
tree that respects them.

There is at most one such tree, because its text is that of the sequence and reads
back.  There may be none, for two comparisons of one level do not follow one another.
A tree takes in one more operator and operand along its right edge: behind the first
node that binds no looser than the operator.  Where that node is a comparison of the
level of the operator, the operator is blocked, and here the reader stops too: the
level has read its one operator, and no looser level knows the one that comes next.

## Main definitions

* `Operand`, `Sequence` — operands with operators between them, and their text.
* `Respects` — the tree groups the sequence as the binding strengths ask for.
* `Expr.blocks` — the operator cannot follow the expression.

## Main results

* `Respects.written` — a tree that respects the strengths is written as the sequence.
* `Respects.exists_join` — it takes in one more operand, unless its operator is blocked.
* `Respects.tier_ok_of_blocks` — before a blocked operator the reader stops.
* `Sequence.parse_text` — **a sequence is read as the tree that respects the binding
  strengths**, and where there is none, reading stops at the first operator without one.
-/

namespace Casework

/-! ### Sequences -/

/-- An expression that has a text and stands as an operand without parentheses. -/
structure Operand where
  expr : Expr
  lexical : expr.lexical = true
  tight : 11 ≤ expr.precedence

/-- Operands with binary operators between them. -/
structure Sequence where
  first : Operand
  steps : List (BinOp × Operand)

namespace Sequence

/-- A single operand. -/
def single (a : Operand) : Sequence := ⟨a, []⟩

/-- Two sequences with an operator between them. -/
def join (q : Sequence) (op : BinOp) (r : Sequence) : Sequence :=
  ⟨q.first, q.steps ++ (op, r.first) :: r.steps⟩

/-- The sequence up to the given number of operators. -/
def take (q : Sequence) (k : Nat) : Sequence := ⟨q.first, q.steps.take k⟩

/-- The operators and the operands behind them, with single spaces before each. -/
def stepsText : List (BinOp × Operand) → List Char
  | [] => []
  | (op, a) :: steps => ' ' :: (op.text ++ ' ' :: (a.expr.text ++ stepsText steps))

/-- The text of the sequence, with single spaces. -/
def text (q : Sequence) : List Char := q.first.expr.text ++ stepsText q.steps

theorem stepsText_append (s t : List (BinOp × Operand)) :
    stepsText (s ++ t) = stepsText s ++ stepsText t := by
  induction s with
  | nil => rfl
  | cons step s ih => simp [stepsText, ih]

theorem text_join (q r : Sequence) (op : BinOp) :
    (q.join op r).text = q.text ++ ' ' :: (op.text ++ ' ' :: r.text) := by
  simp [text, join, stepsText_append, stepsText]

theorem join_assoc (q r s : Sequence) (op op' : BinOp) :
    (q.join op r).join op' s = q.join op (r.join op' s) := by
  simp [join]

theorem take_zero (q : Sequence) : q.take 0 = single q.first := rfl

theorem take_length (q : Sequence) : q.take q.steps.length = q := by
  simp [take]

variable {q : Sequence} {k : Nat} {op : BinOp} {a : Operand}

theorem take_succ (h : q.steps[k]? = some (op, a)) :
    q.take (k + 1) = (q.take k).join op (single a) := by
  simp [take, join, single, List.take_add_one, h]

/-- A sequence is written as what comes before an operator and what comes from there on. -/
theorem exists_text_eq (h : q.steps[k]? = some (op, a)) :
    ∃ s, q.text = (q.take k).text ++ ' ' :: (op.text ++ ' ' :: s) := by
  obtain ⟨hk, hstep⟩ := List.getElem?_eq_some_iff.mp h
  have hsteps : q.steps = q.steps.take k ++ (op, a) :: q.steps.drop (k + 1) := by
    rw [← hstep, ← List.drop_eq_getElem_cons hk, List.take_append_drop]
  have htext : stepsText q.steps = stepsText (q.steps.take k) ++
      ' ' :: (op.text ++ ' ' :: (a.expr.text ++ stepsText (q.steps.drop (k + 1)))) := by
    rw [← stepsText, ← stepsText_append, ← hsteps]
  refine ⟨a.expr.text ++ stepsText (q.steps.drop (k + 1)), ?_⟩
  rw [text, htext, ← List.append_assoc]
  rfl

end Sequence

/-! ### Trees that respect the binding strengths -/

/-- The operator compares two values for equality or order. -/
def BinOp.compares : BinOp → Bool
  | .equal | .identical | .notEqual | .notIdentical => true
  | .less | .lessEqual | .greater | .greaterEqual => true
  | .add | .sub | .mul | .div | .mod | .concat | .and | .or => false

/-- The operators that compare are those that do not chain. -/
theorem BinOp.chains_eq_not_compares (op : BinOp) : op.chains = !op.compares := by
  cases op <;> rfl

/-- The tree has the operands of the sequence in their order, and each of its nodes
over them respects the binding strengths: its right operand binds tighter than the
operator, and its left operand no looser, but tighter if the operator compares. -/
inductive Respects : Expr → Sequence → Prop
  | operand (a : Operand) : Respects a.expr (.single a)
  | binary {a b : Expr} {q r : Sequence} (op : BinOp) (ha : Respects a q) (hb : Respects b r)
      (hleft : op.precedence ≤ a.precedence)
      (hcompares : op.compares = true → op.precedence < a.precedence)
      (hright : op.precedence < b.precedence) : Respects (.binary op a b) (q.join op r)

/-- The operator cannot follow the expression: on the right edge of the expression,
the first node that binds no looser is a comparison of the same level. -/
def Expr.blocks (op : BinOp) : Expr → Prop
  | .binary op' _ b =>
    op'.precedence = op.precedence ∧ op.compares = true ∨
      op'.precedence < op.precedence ∧ b.blocks op
  | _ => False

theorem Expr.blocks_binary (op op' : BinOp) (a b : Expr) : (Expr.binary op' a b).blocks op ↔
    op'.precedence = op.precedence ∧ op.compares = true ∨
      op'.precedence < op.precedence ∧ b.blocks op := Iff.rfl

/-- Operands block nothing. -/
theorem Operand.not_blocks (a : Operand) (op : BinOp) : ¬ a.expr.blocks op := by
  intro h
  have htight := a.tight
  cases heq : a.expr with
  | binary op' b c =>
    rw [heq, Expr.precedence] at htight
    have := op'.precedence_bounds
    omega
  | _ =>
    rw [heq] at h
    exact h

namespace Respects

variable {t : Expr} {q : Sequence} {op : BinOp}

theorem admits_leftPlace {a : Expr} (hleft : op.precedence ≤ a.precedence)
    (hcompares : op.compares = true → op.precedence < a.precedence) :
    (Expr.leftPlace op).admits a.precedence = true := by
  unfold Expr.leftPlace
  rw [op.chains_eq_not_compares]
  cases h : op.compares with
  | true => exact decide_eq_true (hcompares h)
  | false => exact decide_eq_true hleft

/-- A tree that respects the strengths is written as the sequence. -/
theorem written (h : Respects t q) : Written t.precedence t q.text := by
  induction h with
  | operand a =>
    rw [Sequence.text, Sequence.single, Sequence.stepsText, List.append_nil]
    exact Expr.written_text a.expr a.lexical
  | binary op ha hb hleft hcompares hright iha ihb =>
    rw [Sequence.text_join]
    exact .binary (g := []) (h := []) op iha (admits_leftPlace hleft hcompares) isGap_nil isGap_nil
      ihb hright

/-- A tree takes in one more operator and operand on its right edge, unless the
operator is blocked. -/
theorem exists_join (h : Respects t q) (hblocks : ¬ t.blocks op) (a : Operand) :
    ∃ u, Respects u (q.join op (.single a)) ∧ min t.precedence op.precedence ≤ u.precedence := by
  have htight := a.tight
  have hbounds := op.precedence_bounds
  -- what binds no looser than the operator becomes its left operand
  have hnode : ∀ {x r}, Respects x r → op.precedence ≤ x.precedence →
      (op.compares = true → op.precedence < x.precedence) →
      ∃ u, Respects u (r.join op (.single a)) ∧ min x.precedence op.precedence ≤ u.precedence :=
    fun hx hleft hcompares => ⟨_, .binary op hx (.operand a) hleft hcompares (by omega),
      Nat.min_le_right _ _⟩
  induction h with
  | operand b =>
    have hb := b.tight
    exact hnode (.operand b) (by omega) fun _ => by omega
  | @binary x y qx qy op' hx hy hleft hcompares hright _ ihy =>
    rw [Expr.blocks_binary, not_or, not_and, not_and] at hblocks
    by_cases hlt : op'.precedence < op.precedence
    · -- the node stays where it is, and its right operand takes in the new one
      obtain ⟨u, hu, hmin⟩ := ihy (hblocks.2 hlt)
      rw [Sequence.join_assoc]
      refine ⟨_, .binary op' hx hu hleft hcompares (by omega), Nat.min_le_left _ _⟩
    · refine hnode (.binary op' hx hy hleft hcompares hright) (Nat.le_of_not_lt hlt) fun h => ?_
      have hne : op'.precedence ≠ op.precedence := fun heq => hblocks.1 heq h
      show op.precedence < op'.precedence
      omega

end Respects

/-! ### Reading up to an operator -/

/-- Only its own level reads an operator. -/
theorem Level.operator_misses_of_ne {op : BinOp} {level : Level} (h : level ≠ op.level)
    (s : List Char) : level.operator.Misses (op.text ++ ' ' :: s) := by
  cases op <;> cases level <;> first | exact absurd rfl h | exact ⟨_, rfl⟩

namespace Reader

variable {fuel n p q : Nat} {nested : Entry → Reader Expr} {s u v : List Char} {e : Expr}
  {op : BinOp}

/-- A level takes no step at an operator that is not its own. -/
theorem step_misses_operator {level : Level} (h : level ≠ op.level) (operand : Reader Expr)
    (s : List Char) : (step level operand).Misses (' ' :: (op.text ++ ' ' :: s)) := by
  have hgap : gap (' ' :: (op.text ++ ' ' :: s)) = .ok () (op.text ++ ' ' :: s) :=
    gap_ok (isGap_layout (by decide)) (op.atToken_text s)
  exact misses_of_bind_ok hgap (bind_miss (Level.operator_misses_of_ne h s))

/-- What a tier reads up to an operator that binds tighter, the next looser one reads
too. -/
theorem tier_of_succ_before (hp : p < op.precedence)
    (h : tier (fuel + 1) nested (p + 1) s = .ok e (' ' :: (op.text ++ ' ' :: u))) :
    tier (fuel + 1) nested p s = .ok e (' ' :: (op.text ++ ' ' :: u)) := by
  have hgap : gap (' ' :: (op.text ++ ' ' :: u)) = .ok () (op.text ++ ' ' :: u) :=
    gap_ok (isGap_layout (by decide)) (op.atToken_text u)
  have hlevel : ∀ level : Level, level.strength < op.precedence →
      tier (fuel + 1) nested (level.strength + 1) s = .ok e (' ' :: (op.text ++ ' ' :: u)) →
      tier (fuel + 1) nested level.strength s = .ok e (' ' :: (op.text ++ ' ' :: u)) := by
    intro level hlt h
    refine tier_level_of_misses level h (step_misses_operator ?_ _ u)
    rintro rfl
    rw [BinOp.strength_level] at hlt
    exact Nat.lt_irrefl _ hlt
  have hbounds := op.precedence_bounds
  have hp' : p ≤ 9 := by omega
  interval_cases p
  · exact h
  · -- the equals sign of an assignment is not followed by another
    have hmiss : (do char '='; notNext (fun c => c == '=' || c == '>'); nested .whole :
        Reader Expr).Misses (op.text ++ ' ' :: u) := by
      cases op <;> exact ⟨_, rfl⟩
    have h : ternary (fuel + 1) nested s = .ok e (' ' :: (op.text ++ ' ' :: u)) := h
    show assign (fuel + 1) nested s = _
    rw [assign, bind_ok h, bind_ok (optional_miss (misses_of_bind_ok hgap hmiss))]
    rfl
  · have hmiss : (char '?').Misses (op.text ++ ' ' :: u) := by
      cases op <;> exact ⟨_, rfl⟩
    have h : operation (fuel + 1) nested s = .ok e (' ' :: (op.text ++ ' ' :: u)) := h
    show ternary (fuel + 1) nested s = _
    rw [ternary, bind_ok h, bind_ok (optional_miss (misses_of_bind_ok hgap (bind_miss hmiss)))]
    rfl
  · exact h
  · exact hlevel .or hp h
  · exact hlevel .and hp h
  · exact hlevel .equality hp h
  · exact hlevel .relation hp h
  · exact hlevel .concat hp h
  · exact hlevel .sum hp h

/-- What a tier reads up to an operator that binds no looser, the looser ones read
too. -/
theorem tier_of_le_before (hpq : p ≤ q) (hq : q ≤ op.precedence)
    (h : tier (fuel + 1) nested q s = .ok e (' ' :: (op.text ++ ' ' :: u))) :
    tier (fuel + 1) nested p s = .ok e (' ' :: (op.text ++ ' ' :: u)) := by
  induction hpq using Nat.decreasingInduction with
  | self => exact h
  | of_succ p hp ih => exact tier_of_succ_before (by omega) ih

/-- An operator is read with both its operands where the right one is read and no
further operator of the level follows. -/
theorem tier_operator_ok {op : BinOp} {a b : Expr} {r : List Char} (ha : Written p a u)
    (hp : (Expr.leftPlace op).admits p = true) (hn : u.length < n)
    (hb : tier (n + 1) (expression n) (op.precedence + 1) (v ++ r) = .ok b r)
    (hstop : op.chains = true →
      (step op.level (tier (n + 1) (expression n) (op.precedence + 1))).Misses r) :
    tier (n + 1) (expression n) op.precedence (u ++ ' ' :: (op.text ++ ' ' :: (v ++ r))) =
      .ok (.binary op a b) r := by
  have hback := ha.readsBack n (Nat.le_of_lt hn)
  have hends : Ends (op.precedence + 1) (' ' :: (op.text ++ ' ' :: (v ++ r))) :=
    ends_operator isGap_nil op (v ++ r)
  cases hchains : op.chains with
  | true =>
    have hlevel : op.level.strength ≤ p := by
      rw [BinOp.strength_level]
      simpa [Expr.leftPlace, hchains, Expr.Place.admits] using hp
    obtain ⟨k, hk, hgrow⟩ := hback.grows (by rw [BinOp.chains_level, hchains]) hlevel
    -- the rounds that are left do for this operator and for finding no other
    have hround : n + 1 - k = (n - k - 1) + 1 + 1 := by omega
    simp only [BinOp.strength_level] at hgrow
    rw [hgrow _ hends, hround]
    exact (grow_ok (step_ok (g := []) (h := []) isGap_nil isGap_nil hb)).trans
      (grow_miss (hstop hchains))
  | false =>
    have hlt : op.precedence + 1 ≤ p := by
      simpa [Expr.leftPlace, hchains, Expr.Place.admits, Nat.succ_le_iff] using hp
    exact tier_binary (g := []) (h := []) hchains (hback.tier_ok hlt hends) isGap_nil isGap_nil hb

end Reader

open Reader in
/-- Before a blocked operator the reader stops. -/
theorem Respects.tier_ok_of_blocks {t : Expr} {q : Sequence} {op : BinOp} {n p : Nat}
    (h : Respects t q) (hblocks : t.blocks op) (hn : q.text.length ≤ n) (hp : p ≤ t.precedence)
    (s : List Char) :
    tier (n + 1) (expression n) p (q.text ++ ' ' :: (op.text ++ ' ' :: s)) =
      .ok t (' ' :: (op.text ++ ' ' :: s)) := by
  induction h generalizing p with
  | operand a => exact absurd hblocks (a.not_blocks op)
  | @binary x y qx qy op' hx hy hleft hcompares hright _ ihy =>
    rw [Expr.blocks_binary] at hblocks
    rw [Sequence.text_join] at hn ⊢
    simp only [List.length_append, List.length_cons] at hn
    have hle : op'.precedence ≤ op.precedence := by omega
    refine tier_of_le_before hp hle ?_
    simp only [List.append_assoc, List.cons_append]
    refine tier_operator_ok hx.written (admits_leftPlace hleft hcompares) (by omega) ?_ ?_
    · -- the right operand ends before the operator, or the operator is blocked in it
      rcases hblocks with ⟨heq, -⟩ | ⟨-, hy'⟩
      · refine (hy.written.readsBack n (by omega)).tier_ok hright ?_
        rw [heq]
        exact ends_operator isGap_nil op s
      · exact ihy hy' (by omega) hright
    · intro hchains
      refine step_misses_operator ?_ _ s
      intro hlevel
      -- of two operators of one level either both chain or none does
      rcases hblocks with ⟨-, hop⟩ | ⟨hlt, -⟩
      · rw [← op'.chains_level, hlevel, op.chains_level, op.chains_eq_not_compares, hop] at hchains
        cases hchains
      · rw [← op'.strength_level, hlevel, op.strength_level] at hlt
        exact Nat.lt_irrefl _ hlt

/-! ### Whole texts -/

/-- What a whole text is read as, from what its expression leaves. -/
theorem Expr.parse_of_expr_ok {source rest : List Char} {e : Expr}
    (h : Reader.expr (source.length + 1) source = .ok e rest) :
    Expr.parse (String.ofList source) =
      if (ahead rest).isEmpty then .ok e else .error (.leftOver source (ahead rest)) := by
  have hgap : Reader.gap rest = .ok () (ahead rest) := rfl
  have hreader : (do let e ← Reader.expr (source.length + 1); Reader.gap; pure e : Reader Expr)
      source = .ok e (ahead rest) := by
    rw [Reader.bind_ok h, Reader.bind_ok hgap]
    rfl
  unfold Expr.parse
  rw [String.toList_ofList]
  simp only [hreader]

theorem leadingWhiteSpace_cons {c : Char} (hc : isWhiteSpace c = false) (s : List Char) :
    leadingWhiteSpace (c :: s) = [] := by
  simp [leadingWhiteSpace, hc]

/-- A rest that does not begin with white space is reported where it begins. -/
theorem Fault.offset_leftOver {rest : List Char} (h : leadingWhiteSpace rest = [])
    (read : List Char) : (Fault.leftOver (read ++ rest) rest).position.offset = byteSize read := by
  rw [Fault.leftOver, h]
  show byteSize _ - byteSize _ + byteSize [] = _
  rw [byteSize_append, Nat.add_sub_cancel, byteSize_nil, Nat.add_zero]

/-- The fault before an operator is reported at the operator. -/
theorem Fault.offset_leftOver_operator (read s : List Char) (op : BinOp) :
    (Fault.leftOver (read ++ (op.text ++ ' ' :: s)) (op.text ++ ' ' :: s)).position.offset =
      byteSize read := by
  have hwhite : leadingWhiteSpace (op.text ++ ' ' :: s) = [] := by
    cases op <;> exact leadingWhiteSpace_cons (by decide) _
  exact Fault.offset_leftOver hwhite read

namespace Sequence

variable {t : Expr} {q : Sequence}

/-- A sequence is read as a tree that respects the binding strengths. -/
theorem parse_text_of_respects (h : Respects t q) :
    Expr.parse (String.ofList q.text) = .ok t := by
  have hread := h.written.expr_ok (Nat.lt_succ_self _) ends_nil
  rw [List.append_nil] at hread
  exact Expr.parse_of_expr_ok hread

/-- There is no other such tree. -/
theorem eq_of_respects {u : Expr} (ht : Respects t q) (hu : Respects u q) : u = t := by
  have hparse := parse_text_of_respects hu
  rw [parse_text_of_respects ht] at hparse
  exact (Except.ok.inj hparse).symm

/-- Where one more operand leaves no tree, reading stops before its operator. -/
theorem exists_fault {k : Nat} {op : BinOp} {a : Operand} (hstep : q.steps[k]? = some (op, a))
    (ht : Respects t (q.take k)) (hnone : ∀ u, ¬ Respects u (q.take (k + 1))) :
    ∃ fault, Expr.parse (String.ofList q.text) = .error fault ∧
      fault.reason.message = "unexpected trailing input" ∧
      fault.position.offset = (String.ofList ((q.take k).text ++ [' '])).utf8ByteSize := by
  have hblocks : t.blocks op := by
    by_contra hfree
    obtain ⟨u, hu, -⟩ := ht.exists_join hfree a
    exact hnone u (by rwa [take_succ hstep])
  obtain ⟨s, hs⟩ := exists_text_eq hstep
  have hn : (q.take k).text.length ≤ q.text.length := by
    rw [hs, List.length_append]
    omega
  have hread : Reader.expr (q.text.length + 1) q.text = .ok t (' ' :: (op.text ++ ' ' :: s)) := by
    have htier := ht.tier_ok_of_blocks hblocks hn (Nat.zero_le _) s
    rwa [← hs] at htier
  have hahead : ahead (' ' :: (op.text ++ ' ' :: s)) = op.text ++ ' ' :: s :=
    isGap_nil.ahead_space_append (op.atToken_text s)
  have hne : (op.text ++ ' ' :: s).isEmpty = false := by cases op <;> rfl
  have hsource : q.text = ((q.take k).text ++ [' ']) ++ (op.text ++ ' ' :: s) := by
    rw [hs, List.append_assoc, List.singleton_append]
  refine ⟨.leftOver q.text (op.text ++ ' ' :: s), ?_, rfl, ?_⟩
  · rw [Expr.parse_of_expr_ok hread, hahead, hne]
    rfl
  · rw [hsource, Fault.offset_leftOver_operator, utf8ByteSize_ofList]

/-- Up to some operator there are trees, and from there on none. -/
theorem exists_first_without (h : ∀ t, ¬ Respects t q) : ∃ k < q.steps.length,
    (∀ j ≤ k, ∃ t, Respects t (q.take j)) ∧ ∀ t, ¬ Respects t (q.take (k + 1)) := by
  classical
  have hsome : ∃ k, ∀ t, ¬ Respects t (q.take k) := ⟨q.steps.length, by rwa [take_length]⟩
  have hne : Nat.find hsome ≠ 0 := by
    intro hzero
    have hnone := Nat.find_spec hsome
    rw [hzero, take_zero] at hnone
    exact hnone _ (.operand q.first)
  obtain ⟨k, hk⟩ := Nat.exists_eq_succ_of_ne_zero hne
  have hle : Nat.find hsome ≤ q.steps.length := Nat.find_min' hsome (by rwa [take_length])
  refine ⟨k, by omega, fun j hj => ?_, ?_⟩
  · have hmin := Nat.find_min hsome (m := j) (by omega)
    exact not_forall_not.mp hmin
  · have hnone := Nat.find_spec hsome
    rwa [hk] at hnone

/-- **A sequence is read as the tree that respects the binding strengths.**  There is
one such tree, and it is read, or there is none, and reading stops at the first
operator up to whose right operand there is none. -/
theorem parse_text (q : Sequence) :
    (∃ t, Respects t q ∧ (∀ u, Respects u q → u = t) ∧
      Expr.parse (String.ofList q.text) = .ok t) ∨
    ((∀ t, ¬ Respects t q) ∧ ∃ k < q.steps.length,
      (∀ j ≤ k, ∃ t, Respects t (q.take j)) ∧ (∀ t, ¬ Respects t (q.take (k + 1))) ∧
      ∃ fault, Expr.parse (String.ofList q.text) = .error fault ∧
        fault.reason.message = "unexpected trailing input" ∧
        fault.position.offset = (String.ofList ((q.take k).text ++ [' '])).utf8ByteSize) := by
  by_cases h : ∃ t, Respects t q
  · obtain ⟨t, ht⟩ := h
    exact Or.inl ⟨t, ht, fun u hu => eq_of_respects ht hu, parse_text_of_respects ht⟩
  · have hnone : ∀ t, ¬ Respects t q := fun t ht => h ⟨t, ht⟩
    obtain ⟨k, hk, htrees, hfirst⟩ := exists_first_without hnone
    obtain ⟨t, ht⟩ := htrees k (Nat.le_refl k)
    have hstep : q.steps[k]? = some (q.steps[k].1, q.steps[k].2) := List.getElem?_eq_getElem hk
    exact Or.inr ⟨hnone, k, hk, htrees, hfirst, exists_fault hstep ht hfirst⟩

/-- The product is the right operand of the sum; a comparison of a comparison has no tree, and
the fault is reported at its second operator. -/
theorem parse_text_mixed :
    let a : Operand := ⟨.var "a", by decide, by decide⟩
    let b : Operand := ⟨.var "b", by decide, by decide⟩
    let c : Operand := ⟨.var "c", by decide, by decide⟩
    let mixed : Sequence := ⟨a, [(.add, b), (.mul, c)]⟩
    let chained : Sequence := ⟨a, [(.less, b), (.less, c)]⟩
    let t : Expr := .binary .add (.var "a") (.binary .mul (.var "b") (.var "c"))
    (Respects t mixed ∧ (∀ u, Respects u mixed → u = t) ∧
      Expr.parse (String.ofList mixed.text) = .ok t) ∧
    (∀ u, ¬ Respects u chained) ∧
      ∃ k < 2, (∃ u, Respects u (chained.take k)) ∧ (∀ u, ¬ Respects u (chained.take (k + 1))) ∧
        Expr.parse (String.ofList chained.text) = .error ⟨.trailing, ⟨8, 1, 9⟩⟩ ∧
        (String.ofList ((chained.take k).text ++ [' '])).utf8ByteSize = 8 := by
  intro a b c mixed chained t
  have hread : Expr.parse (String.ofList mixed.text) = .ok t := by decide +kernel
  have hfault : Expr.parse (String.ofList chained.text) = .error ⟨.trailing, ⟨8, 1, 9⟩⟩ := by
    decide +kernel
  constructor
  · rcases mixed.parse_text with ⟨u, hu, hunique, hparse⟩ | ⟨-, -, -, -, -, fault, hparse, -⟩
    · cases hread.symm.trans hparse
      exact ⟨hu, hunique, hread⟩
    · cases hread.symm.trans hparse
  · rcases chained.parse_text with
      ⟨u, -, -, hparse⟩ | ⟨hnone, k, hk, htrees, hfirst, fault, hparse, -, hoffset⟩
    · cases hfault.symm.trans hparse
    · cases hfault.symm.trans hparse
      exact ⟨hnone, k, hk, htrees k (Nat.le_refl k), hfirst, hfault, hoffset.symm⟩

/-- The second comparison is not taken in, also behind operators that bind tighter. -/
example : Expr.parse "$a + $b < $c . $d < $e" = .error ⟨.trailing, ⟨18, 1, 19⟩⟩ := by
  decide +kernel

end Sequence

end Casework
