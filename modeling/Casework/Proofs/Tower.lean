import Mathlib.Tactic.IntervalCases
import Casework.Printer.Expr
import Casework.Proofs.Token
import Casework.Reader.Expression

/-!
# The tower of levels

An expression is read by a tower of tiers, one for each binding strength.  What a
tighter tier has read passes through a looser one unchanged, unless the rest
begins with an operator of the looser tier.  Left of a chaining operator a tier
has read only a part and goes on from there; this is told by `Reader.grow`.

## Main definitions

* `Level.strength`, `BinOp.level` — levels and operators by binding strength.
* `Reader.tier` — the reader for operands of a given strength.
* `Ends` — the rest does not continue an expression of the given strength.

## Main results

* `Reader.tier_gap` — a tier passes over the gap before it.
* `Reader.tier_of_le` — **what a tier reads, the looser ones read too**, when the
  expression ends there.
* `Reader.expression_misses` — no expression is read where none begins.
-/

namespace Casework

/-! ### Levels by strength -/

/-- The binding strength of the operators of a level. -/
def Level.strength : Level → Nat
  | .or => 4
  | .and => 5
  | .equality => 6
  | .relation => 7
  | .concat => 8
  | .sum => 9
  | .product => 10

theorem Level.strength_inj {a b : Level} : a.strength = b.strength ↔ a = b := by
  cases a <;> cases b <;> decide

/-- The level of an operator. -/
def BinOp.level : BinOp → Level
  | .or => .or
  | .and => .and
  | .equal | .identical | .notEqual | .notIdentical => .equality
  | .less | .lessEqual | .greater | .greaterEqual => .relation
  | .concat => .concat
  | .add | .sub => .sum
  | .mul | .div | .mod => .product

theorem BinOp.precedence_bounds (op : BinOp) : 4 ≤ op.precedence ∧ op.precedence ≤ 10 := by
  cases op <;> decide

@[simp] theorem BinOp.strength_level (op : BinOp) : op.level.strength = op.precedence := by
  cases op <;> rfl

@[simp] theorem BinOp.chains_level (op : BinOp) : op.level.chains = op.chains := by
  cases op <;> rfl

/-- An operator with a space behind it is read by its level. -/
theorem Level.operator_ok (op : BinOp) (s : List Char) :
    op.level.operator (op.text ++ ' ' :: s) = .ok op (' ' :: s) := by
  cases op <;> rfl

/-- No tighter level reads the operator. -/
theorem Level.operator_misses {op : BinOp} {level : Level} (h : op.precedence < level.strength)
    (s : List Char) : level.operator.Misses (op.text ++ ' ' :: s) := by
  cases op <;> cases level <;> first | exact absurd h (by decide) | exact ⟨_, rfl⟩

/-- The strength that an entry of the tower asks for. -/
def Entry.strength : Entry → Nat
  | .whole => 0
  | .choice => 2
  | .operand => 11

namespace Reader

/-! ### Tiers -/

/-- The reader for operands of the given strength or a tighter one. -/
def tier (fuel : Nat) (nested : Entry → Reader Expr) (strength : Nat) : Reader Expr :=
  if strength ≤ 1 then assign fuel nested
  else if strength = 2 then ternary fuel nested
  else if strength ≤ 11 then
    (Level.all.drop (strength - 4)).foldr (binary fuel) (unary fuel nested)
  else if strength = 12 then suffixed fuel (nested .whole)
  else primary fuel (nested .whole)

variable {fuel : Nat} {nested : Entry → Reader Expr}

/-- An operator of the level and its right operand. -/
def step (level : Level) (operand : Reader Expr) : Reader (BinOp × Expr) := do
  gap
  let op ← level.operator
  let right ← operand
  pure (op, right)

/-- The expression so far becomes the left operand. -/
def attach (left : Expr) (part : BinOp × Expr) : Expr := .binary part.1 left part.2

theorem tier_level (level : Level) : tier fuel nested level.strength =
    binary fuel level (tier fuel nested (level.strength + 1)) := by
  cases level <;> rfl

theorem binary_of_chains {level : Level} (h : level.chains = true) (operand : Reader Expr) :
    binary fuel level operand =
      (do let first ← operand; grow (step level operand) attach fuel first) := by
  simp only [binary, h]
  rfl

theorem binary_of_not_chains {level : Level} (h : level.chains = false) (operand : Reader Expr) :
    binary fuel level operand = (do
      let first ← operand
      match ← optional (step level operand) with
      | some (op, right) => pure (.binary op first right)
      | none => pure first) := by
  simp only [binary, h]
  rfl

theorem suffixed_eq (whole : Reader Expr) : suffixed fuel whole =
    (do let base ← primary fuel whole; grow (suffix fuel whole) Suffix.apply fuel base) := rfl

end Reader

/-! ### Where an expression ends -/

/-- The text from the next token on. -/
def ahead (s : List Char) : List Char := (gapFrom 0 s).2

/-- The rest does not continue an expression of the given strength: it lengthens
no word or number, and behind its gap stands nothing that a tier of this strength
or a tighter one takes. -/
structure Ends (strength : Nat) (rest : List Char) : Prop where
  apart : Apart rest
  noSuffix : strength ≤ 12 → (ahead rest).head? ≠ some '(' ∧ (ahead rest).head? ≠ some '[' ∧
    ['-', '>'].isPrefixOf (ahead rest) = false
  noOperator : ∀ level : Level, strength ≤ level.strength → level.operator.Misses (ahead rest)
  noChoice : strength ≤ 2 → (ahead rest).head? ≠ some '?'
  noValue : strength ≤ 1 → (ahead rest).head? ≠ some '='

/-- The characters that close an expression of any strength. -/
def isClosing (c : Char) : Bool := c == ')' || c == ']' || c == ',' || c == ';' || c == ':'

variable {p q : Nat} {g r s : List Char} {k : List Comment} {c : Char}

theorem Ends.mono (h : Ends p r) (hpq : p ≤ q) : Ends q r where
  apart := h.apart
  noSuffix := fun hq => h.noSuffix (by omega)
  noOperator := fun level hq => h.noOperator level (by omega)
  noChoice := fun hq => h.noChoice (by omega)
  noValue := fun hq => h.noValue (by omega)

theorem IsGap.ahead_append (hg : IsGap g k) (s : List Char) : ahead (g ++ s) = ahead s := by
  rw [ahead, hg s]
  rfl

theorem ahead_of_atToken (h : AtToken s) : ahead s = s := by
  rw [ahead, h]

theorem apart_nil : Apart [] := by
  intro c hc
  cases hc

theorem apart_cons (hc : isNameChar c = false ∧ c ≠ '.') (s : List Char) : Apart (c :: s) := by
  intro d hd
  obtain rfl : c = d := Option.some.inj hd
  exact hc

/-- A gap keeps a word from going on. -/
theorem apart_of_isGapStart (hc : isGapStart c = true) (s : List Char) : Apart (c :: s) := by
  refine apart_cons ?_ s
  simp only [isGapStart, isLayout, Bool.or_eq_true, beq_iff_eq] at hc
  rcases hc with ((((rfl | rfl) | rfl) | rfl) | rfl) | rfl <;> decide

/-- Only a primary expression asks for no more than to be apart. -/
theorem ends_of_apart (h : Apart r) : Ends 13 r where
  apart := h
  noSuffix := fun hle => absurd hle (by decide)
  noOperator := fun level hle => absurd hle (by cases level <;> decide)
  noChoice := fun hle => absurd hle (by decide)
  noValue := fun hle => absurd hle (by decide)

/-- Every expression ends with the text. -/
theorem ends_nil : Ends 0 [] where
  apart := apart_nil
  noSuffix := fun _ => by decide
  noOperator := fun level _ => by cases level <;> exact ⟨_, rfl⟩
  noChoice := fun _ => by decide
  noValue := fun _ => by decide

/-- Every expression ends before a closing character. -/
theorem ends_closing (hg : IsGap g k) (hc : isClosing c = true) (s : List Char) :
    Ends 0 (g ++ c :: s) := by
  have hahead : ahead (g ++ c :: s) = c :: s := by
    rw [hg.ahead_append]
    refine ahead_of_atToken (atToken_cons ?_ s)
    simp only [isClosing, Bool.or_eq_true, beq_iff_eq] at hc
    rcases hc with (((rfl | rfl) | rfl) | rfl) | rfl <;> decide
  have hapart : Apart (g ++ c :: s) := by
    cases g with
    | nil =>
      refine apart_cons ?_ s
      simp only [isClosing, Bool.or_eq_true, beq_iff_eq] at hc
      rcases hc with (((rfl | rfl) | rfl) | rfl) | rfl <;> decide
    | cons d g => exact apart_of_isGapStart hg.isGapStart_of_cons _
  simp only [isClosing, Bool.or_eq_true, beq_iff_eq] at hc
  constructor
  · exact hapart
  · intro _
    rw [hahead]
    rcases hc with (((rfl | rfl) | rfl) | rfl) | rfl <;> exact ⟨by simp, by simp, rfl⟩
  · intro level _
    rw [hahead]
    rcases hc with (((rfl | rfl) | rfl) | rfl) | rfl <;> cases level <;> exact ⟨_, rfl⟩
  · intro _
    rw [hahead]
    rcases hc with (((rfl | rfl) | rfl) | rfl) | rfl <;> simp
  · intro _
    rw [hahead]
    rcases hc with (((rfl | rfl) | rfl) | rfl) | rfl <;> simp

theorem IsGap.ahead_space_append (hg : IsGap g k) (hs : AtToken s) :
    ahead (' ' :: (g ++ s)) = s := by
  rw [← List.cons_append, (hg.cons_layout (by decide)).ahead_append, ahead_of_atToken hs]

theorem apart_space (s : List Char) : Apart (' ' :: s) := apart_of_isGapStart (by decide) s

theorem BinOp.atToken_text (op : BinOp) (s : List Char) : AtToken (op.text ++ ' ' :: s) := by
  cases op <;> exact gapFrom_token rfl rfl

/-- An operand ends before an operator that binds looser. -/
theorem ends_operator (hg : IsGap g k) (op : BinOp) (s : List Char) :
    Ends (op.precedence + 1) (' ' :: (g ++ (op.text ++ ' ' :: s))) := by
  have hahead := hg.ahead_space_append (op.atToken_text s)
  constructor
  · exact apart_space _
  · intro _
    rw [hahead]
    cases op <;> exact ⟨by simp [BinOp.text], by simp [BinOp.text], rfl⟩
  · intro level hlevel
    rw [hahead]
    exact Level.operator_misses hlevel s
  · intro h
    exact absurd h (by cases op <;> decide)
  · intro h
    exact absurd h (by cases op <;> decide)

/-- A condition ends before its question mark. -/
theorem ends_question (hg : IsGap g k) (s : List Char) : Ends 3 (' ' :: (g ++ '?' :: s)) := by
  have hahead := hg.ahead_space_append (atToken_cons (c := '?') (by decide) s)
  constructor
  · exact apart_space _
  · intro _
    rw [hahead]
    exact ⟨by simp, by simp, rfl⟩
  · intro level _
    rw [hahead]
    cases level <;> exact ⟨_, rfl⟩
  · intro h
    exact absurd h (by decide)
  · intro h
    exact absurd h (by decide)

/-- What is assigned to ends before the equals sign. -/
theorem ends_equals (hg : IsGap g k) (s : List Char) : Ends 2 (' ' :: (g ++ '=' :: ' ' :: s)) := by
  have hahead := hg.ahead_space_append (atToken_cons (c := '=') (by decide) (' ' :: s))
  constructor
  · exact apart_space _
  · intro _
    rw [hahead]
    exact ⟨by simp, by simp, rfl⟩
  · intro level _
    rw [hahead]
    cases level <;> exact ⟨_, rfl⟩
  · intro _
    rw [hahead]
    simp
  · intro h
    exact absurd h (by decide)

/-! ### Passing through the tower -/

namespace Reader

variable {fuel : Nat} {nested : Entry → Reader Expr} {e : Expr}

/-- Below the suffixes, each tier reads what the next tighter one reads and goes
on from there. -/
theorem exists_tier_eq_bind (fuel : Nat) (nested : Entry → Reader Expr) (hp : p ≤ 10) :
    ∃ f : Expr → Reader Expr, ∀ s,
      tier fuel nested p s = (tier fuel nested (p + 1) >>= f) s := by
  have hpure : ∀ q s, tier fuel nested q s = (tier fuel nested q >>= pure) s := by
    intro q s
    rw [bind_apply]
    cases tier fuel nested q s <;> rfl
  have hlevel : ∀ level : Level, ∃ f : Expr → Reader Expr, ∀ s,
      tier fuel nested level.strength s = (tier fuel nested (level.strength + 1) >>= f) s := by
    intro level
    rw [tier_level]
    exact ⟨_, fun s => rfl⟩
  interval_cases p
  · exact ⟨pure, hpure 1⟩
  · exact ⟨_, fun s => rfl⟩
  · exact ⟨_, fun s => rfl⟩
  · exact ⟨pure, hpure 4⟩
  · exact hlevel .or
  · exact hlevel .and
  · exact hlevel .equality
  · exact hlevel .relation
  · exact hlevel .concat
  · exact hlevel .sum
  · exact hlevel .product

theorem bind_congr_text {α β : Type} {a : Reader α} {f : α → Reader β} (h : a s = a r) :
    (a >>= f) s = (a >>= f) r := by
  rw [bind_apply, bind_apply, h]

/-- A tier begins with a gap, so it does not matter how much of it is left. -/
theorem tier_congr (fuel : Nat) (nested : Entry → Reader Expr) (p : Nat) (h : gap s = gap r) :
    tier fuel nested p s = tier fuel nested p r := by
  by_cases hp : p ≤ 11
  · induction hp using Nat.decreasingInduction with
    | self => exact bind_congr_text h
    | of_succ p hp ih =>
      obtain ⟨f, hf⟩ := exists_tier_eq_bind fuel nested (Nat.le_of_lt_succ hp)
      rw [hf s, hf r]
      exact bind_congr_text ih
  · have hprimary : primary fuel (nested .whole) s = primary fuel (nested .whole) r :=
      bind_congr_text h
    obtain rfl | hp : p = 12 ∨ 13 ≤ p := by omega
    · exact bind_congr_text hprimary
    · have htier : tier fuel nested p = primary fuel (nested .whole) := by
        rw [tier, if_neg (by omega), if_neg (by omega), if_neg (by omega), if_neg (by omega)]
      rw [htier, hprimary]

/-- A tier passes over the gap before it. -/
theorem tier_gap (hg : IsGap g k) (s : List Char) :
    tier fuel nested p (g ++ s) = tier fuel nested p s :=
  tier_congr fuel nested p (gap_append hg s)

/-- A tier reads the same from the next token on. -/
theorem tier_ahead (fuel : Nat) (nested : Entry → Reader Expr) (p : Nat) (s : List Char) :
    tier fuel nested p (ahead s) = tier fuel nested p s :=
  tier_congr fuel nested p (gap_gapFrom s)

theorem within_misses {o : Char} (h : s.head? ≠ some o) (c : Char) (whole : Reader Expr) :
    (within o c whole).Misses s :=
  bind_miss (char_miss h)

theorem listIn_misses {o : Char} (h : s.head? ≠ some o) (fuel : Nat) (c : Char)
    (whole : Reader Expr) : (listIn fuel o c whole).Misses s :=
  bind_miss (char_miss h)

/-- No suffix is read where the expression ends. -/
theorem suffix_misses (h : Ends p r) (hp : p ≤ 12) (fuel : Nat) (whole : Reader Expr) :
    (suffix fuel whole).Misses r := by
  obtain ⟨hcall, hindex, hprop⟩ := h.noSuffix hp
  have hgap : gap r = .ok () (ahead r) := rfl
  exact misses_of_bind_ok hgap (orElse_misses (bind_miss (listIn_misses hcall _ _ _))
    (orElse_misses (bind_miss (within_misses hindex _ _)) (bind_miss (token_miss hprop))))

/-- No operator of a level is read where the expression ends. -/
theorem step_misses (h : Ends p r) {level : Level} (hp : p ≤ level.strength)
    (operand : Reader Expr) : (step level operand).Misses r := by
  have hgap : gap r = .ok () (ahead r) := rfl
  exact misses_of_bind_ok hgap (bind_miss (h.noOperator level hp))

/-- The text begins with the operand of a unary operator and not with such an
operator. -/
def Bare (s : List Char) : Prop := AtToken s ∧ s.head? ≠ some '!' ∧ s.head? ≠ some '-'

theorem unary_bare (h : Bare s) (fuel : Nat) (nested : Entry → Reader Expr) :
    unary fuel nested s = suffixed fuel (nested .whole) s := by
  obtain ⟨hs, hnot, hneg⟩ := h
  rw [unary, bind_ok (gap_atToken hs), orElse_miss (bind_miss (char_miss hnot)),
    orElse_miss (bind_miss (char_miss hneg))]

/-- What the operand of a level reads, the level reads too, where no step of it follows. -/
theorem tier_level_of_misses (level : Level)
    (h : tier (fuel + 1) nested (level.strength + 1) s = .ok e r)
    (hmiss : (step level (tier (fuel + 1) nested (level.strength + 1))).Misses r) :
    tier (fuel + 1) nested level.strength s = .ok e r := by
  rw [tier_level]
  rcases Bool.eq_false_or_eq_true level.chains with hc | hc
  · rw [binary_of_chains hc, bind_ok h, grow_miss hmiss]
  · rw [binary_of_not_chains hc, bind_ok h, bind_ok (optional_miss hmiss)]
    rfl

theorem tier_level_of_succ (level : Level)
    (h : tier (fuel + 1) nested (level.strength + 1) s = .ok e r) (hr : Ends level.strength r) :
    tier (fuel + 1) nested level.strength s = .ok e r :=
  tier_level_of_misses level h (step_misses hr (Nat.le_refl _) _)

/-- What one tier reads, the next looser one reads too. -/
theorem tier_of_succ (hp : p ≤ 12) (hs : p = 11 → Bare s)
    (h : tier (fuel + 1) nested (p + 1) s = .ok e r) (hr : Ends p r) :
    tier (fuel + 1) nested p s = .ok e r := by
  have hgap : gap r = .ok () (ahead r) := rfl
  interval_cases p
  · exact h
  · have hmiss := char_miss (hr.noValue (by decide))
    have h : ternary (fuel + 1) nested s = .ok e r := h
    show assign (fuel + 1) nested s = _
    rw [assign, bind_ok h, bind_ok (optional_miss (misses_of_bind_ok hgap (bind_miss hmiss)))]
    rfl
  · have hmiss := char_miss (hr.noChoice (by decide))
    have h : operation (fuel + 1) nested s = .ok e r := h
    show ternary (fuel + 1) nested s = _
    rw [ternary, bind_ok h, bind_ok (optional_miss (misses_of_bind_ok hgap (bind_miss hmiss)))]
    rfl
  · exact h
  · exact tier_level_of_succ .or h hr
  · exact tier_level_of_succ .and h hr
  · exact tier_level_of_succ .equality h hr
  · exact tier_level_of_succ .relation h hr
  · exact tier_level_of_succ .concat h hr
  · exact tier_level_of_succ .sum h hr
  · exact tier_level_of_succ .product h hr
  · rw [← h]
    exact unary_bare (hs rfl) _ _
  · have h : primary (fuel + 1) (nested .whole) s = .ok e r := h
    show suffixed (fuel + 1) (nested .whole) s = _
    rw [suffixed_eq, bind_ok h, grow_miss (suffix_misses hr (Nat.le_refl _) _ _)]

/-- **What a tier reads, the looser ones read too**, when the expression ends
there. -/
theorem tier_of_le (hpq : p ≤ q) (hq : q ≤ 13) (hs : 11 < q → Bare s)
    (h : tier (fuel + 1) nested q s = .ok e r) (hr : Ends p r) :
    tier (fuel + 1) nested p s = .ok e r := by
  induction hpq using Nat.decreasingInduction with
  | self => exact h
  | of_succ p hp ih =>
    refine tier_of_succ (by omega) (fun h11 => hs (by omega)) (ih (hr.mono (Nat.le_succ p))) hr

/-! ### Where no expression begins -/

/-- The characters that a literal or a name may begin with. -/
def isAtomStart (c : Char) : Bool := c == '\'' || c == '"' || c.isDigit || isNameStart c

/-- The characters that a primary expression may begin with. -/
def isPrimaryStart (c : Char) : Bool := c == '(' || c == '[' || c == '$' || isAtomStart c

/-- The characters that an expression may begin with. -/
def isOperandStart (c : Char) : Bool := c == '!' || c == '-' || isPrimaryStart c

theorem head?_ne {accepts : Char → Bool} {c : Char} (h : ∀ c ∈ s.head?, accepts c = false)
    (hc : accepts c = true) : s.head? ≠ some c := by
  intro hs
  rw [h c hs] at hc
  cases hc

theorem literal_misses (h : ∀ c ∈ s.head?, isAtomStart c = false) : literal.Misses s := by
  cases s with
  | nil => exact ⟨[], rfl⟩
  | cons c s =>
    have hc := h c rfl
    simp only [isAtomStart, Bool.or_eq_false_iff, beq_eq_false_iff_ne] at hc
    obtain ⟨⟨⟨hsingle, hdouble⟩, hdigit⟩, hname⟩ := hc
    have halpha : c.isAlpha = false := by
      simp only [isNameStart, isWordStart, Bool.or_eq_false_iff] at hname
      exact hname.1.1
    obtain ⟨t, ht⟩ : (float <|> int <|> quotedBy .single <|> quotedBy .double :
        Reader Literal).Misses (c :: s) :=
      orElse_misses (float_misses hdigit) (orElse_misses (int_misses hdigit)
        (orElse_misses (bind_miss (char_miss (by simpa [Quote.mark] using hsingle)))
          (bind_miss (char_miss (by simpa [Quote.mark] using hdouble)))))
    exact ⟨t, by rw [literal_of_not_isAlpha halpha, ht]⟩

theorem name_misses (h : ∀ c ∈ s.head?, isAtomStart c = false) : name.Misses s := by
  refine bind_miss (satisfy_miss fun c hc => ?_)
  have := h c hc
  rw [isAtomStart, Bool.or_eq_false_iff] at this
  exact this.2

/-- No primary expression is read where none begins. -/
theorem primary_misses (h : ∀ c ∈ (ahead s).head?, isPrimaryStart c = false) (fuel : Nat)
    (whole : Reader Expr) : (primary fuel whole).Misses s := by
  have hgap : gap s = .ok () (ahead s) := rfl
  have hatom : ∀ c ∈ (ahead s).head?, isAtomStart c = false := by
    intro c hc
    have := h c hc
    rw [isPrimaryStart, Bool.or_eq_false_iff] at this
    exact this.2
  exact misses_of_bind_ok hgap (orElse_misses (within_misses (head?_ne h (by decide)) _ _)
    (orElse_misses (bind_miss (listIn_misses (head?_ne h (by decide)) _ _ _))
      (orElse_misses (bind_miss (char_miss (head?_ne h (by decide))))
        (orElse_misses (bind_miss (literal_misses hatom)) (bind_miss (name_misses hatom))))))

/-- No operand is read where none begins. -/
theorem unary_misses (h : ∀ c ∈ (ahead s).head?, isOperandStart c = false) (fuel : Nat)
    (nested : Entry → Reader Expr) : (unary fuel nested).Misses s := by
  have hgap : gap s = .ok () (ahead s) := rfl
  have hahead : ahead (ahead s) = ahead s := ahead_of_atToken (atToken_gapFrom 0 s)
  have hprimary : ∀ c ∈ (ahead (ahead s)).head?, isPrimaryStart c = false := by
    rw [hahead]
    intro c hc
    have := h c hc
    rw [isOperandStart, Bool.or_eq_false_iff] at this
    exact this.2
  exact misses_of_bind_ok hgap (orElse_misses (bind_miss (char_miss (head?_ne h (by decide))))
    (orElse_misses (bind_miss (char_miss (head?_ne h (by decide))))
      (bind_miss (primary_misses hprimary fuel (nested .whole)))))

/-- Every tier that operands are read at misses where they miss. -/
theorem tier_misses (h : (unary fuel nested).Misses s) (hp : p ≤ 11) :
    (tier fuel nested p).Misses s := by
  induction hp using Nat.decreasingInduction with
  | self => exact h
  | of_succ p hp ih =>
    obtain ⟨f, hf⟩ := exists_tier_eq_bind fuel nested (Nat.le_of_lt_succ hp)
    obtain ⟨t, ht⟩ := bind_miss ih (f := f)
    exact ⟨t, by rw [hf s, ht]⟩

/-! ### Entries -/

theorem expression_eq_tier (n : Nat) (entry : Entry) :
    expression (n + 1) entry = tier (n + 1) (expression n) entry.strength := by
  cases entry <;> rfl

/-- No expression is read where no operand is. -/
theorem expression_misses_of_unary {n : Nat} (h : (unary n (expression (n - 1))).Misses s)
    (entry : Entry) : (expression n entry).Misses s := by
  cases n with
  | zero => exact ⟨s, rfl⟩
  | succ n =>
    rw [expression_eq_tier]
    exact tier_misses h (by cases entry <;> decide)

/-- No expression is read where none begins. -/
theorem expression_misses (h : ∀ c ∈ (ahead s).head?, isOperandStart c = false) (n : Nat)
    (entry : Entry) : (expression n entry).Misses s :=
  expression_misses_of_unary (unary_misses h n _) entry

theorem expression_misses_of_ahead {c : Char} (hs : ahead s = c :: r)
    (hc : isOperandStart c = false) (n : Nat) (entry : Entry) : (expression n entry).Misses s := by
  refine expression_misses ?_ n entry
  rw [hs]
  intro d hd
  cases hd
  exact hc

/-- An expression is read the same behind a gap. -/
theorem expression_gap (hg : IsGap g k) (n : Nat) (entry : Entry) (s : List Char) :
    expression (n + 1) entry (g ++ s) = expression (n + 1) entry s := by
  rw [expression_eq_tier]
  exact tier_gap hg s

end Reader
end Casework
