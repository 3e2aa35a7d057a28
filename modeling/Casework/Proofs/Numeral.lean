import Mathlib.Data.List.Induction
import Mathlib.Data.Nat.Digits.Defs
import Casework.Proofs.Spacing
import Casework.Proofs.Valid

/-!
# Numbers as they are written

A number is written as a run of digits, or as two runs with a point between them.  A run
alone is an integer as long as its value fits into a 64-bit word, and becomes a double
beyond that; with a point it is a double.  The value decides and not the number of
digits, so leading zeros change nothing.

Doubles end too.  A number is read as the nearest of them, and from halfway between the
largest one and the power of two behind it on, there is none left but the infinity.  All
other literals are printed as numbers and read back; the infinity is printed as a word.

## Main definitions

* `Digits`, `Digits.value` — one or more digits, and the number they denote.
* `Digits.word?` — the same in 64-bit words, digit by digit, as long as it fits.
* `Numeral` — a number as it is written.
* `Double.overflow` — the least number that is too large for a double.

## Main results

* `Digits.word?_eq` — the loop over the digits gives up exactly when the value does not
  fit, and never wraps.
* `Magnitude.nearest?_eq_none_iff` — reading overflows halfway beyond the largest
  magnitude.
* `Double.ofScientific_eq` — **a decimal with an exponent stands for the double nearest to
  what it denotes**.
* `Digits.parse_text_exact` — **digits read as the integer they denote, up to the largest
  one, and as a double beyond it**.
* `Numeral.parse_text_reread` — **a number is printed as a number exactly when it is not
  too large for a double**.
-/

namespace Casework

/-! ### Digits -/

/-- The value of a decimal digit. -/
def digitValue (c : Char) : Nat := c.toNat - '0'.toNat

theorem isDigit_of_mem_zeros {zeros : Nat} {c : Char} (h : c ∈ List.replicate zeros '0') :
    c.isDigit = true := by
  rw [List.eq_of_mem_replicate h]
  rfl

theorem digitValue_lt {c : Char} (h : c.isDigit = true) : digitValue c < 10 := by
  have hlast := (Char.isDigit_iff_toNat.mp h).2
  have hfirst : '0'.toNat = 48 := rfl
  have hnine : '9'.toNat = 57 := rfl
  unfold digitValue
  omega

/-- A run of one or more decimal digits. -/
structure Digits where
  chars : List Char
  ne_nil : chars ≠ []
  isDigit : ∀ c ∈ chars, c.isDigit = true

namespace Digits

/-- The digits as a text. -/
def text (d : Digits) : String := String.ofList d.chars

/-- The number that the digits denote, the last of them counting ones. -/
def value (d : Digits) : Nat := Nat.ofDigits 10 (d.chars.reverse.map digitValue)

/-- One run behind another. -/
instance : Append Digits where
  append d e := ⟨d.chars ++ e.chars, by simp [d.ne_nil], by
    intro c hc
    rcases List.mem_append.mp hc with hc | hc
    · exact d.isDigit c hc
    · exact e.isDigit c hc⟩

/-- The digits with zeros before them. -/
def padded (zeros : Nat) (d : Digits) : Digits where
  chars := List.replicate zeros '0' ++ d.chars
  ne_nil := by simp [d.ne_nil]
  isDigit := by
    intro c hc
    rcases List.mem_append.mp hc with hc | hc
    · exact isDigit_of_mem_zeros hc
    · exact d.isDigit c hc

@[simp] theorem chars_append (d e : Digits) : (d ++ e).chars = d.chars ++ e.chars := rfl

@[simp] theorem chars_padded (zeros : Nat) (d : Digits) :
    (d.padded zeros).chars = List.replicate zeros '0' ++ d.chars := rfl

/-- Digits denote what is read off them from the front. -/
theorem value_eq (d : Digits) : d.value = Nat.ofDigitChars 10 d.chars 0 := by
  rw [value]
  induction d.chars using List.reverseRecOn with
  | nil => rfl
  | append_singleton cs c ih =>
    rw [List.reverse_append, List.map_append, Nat.ofDigits_append, ih, Nat.ofDigitChars_append,
      Nat.ofDigitChars_cons, Nat.ofDigitChars_nil]
    simp [digitValue, Nat.add_comm]

/-- Zeros before the digits count for nothing. -/
theorem value_padded (zeros : Nat) (d : Digits) : (d.padded zeros).value = d.value := by
  rw [value_eq, value_eq, chars_padded, Nat.ofDigitChars_append, Nat.ofDigitChars_replicate_zero,
    Nat.mul_zero]

/-- Digits denote less than the power of ten with as many zeros. -/
theorem value_lt (d : Digits) : d.value < 10 ^ d.chars.length := by
  have hdigit : ∀ v ∈ d.chars.reverse.map digitValue, v < 10 := by
    intro v hv
    obtain ⟨c, hc, rfl⟩ := List.mem_map.mp hv
    exact digitValue_lt (d.isDigit c (List.mem_reverse.mp hc))
  simpa [value] using Nat.ofDigits_lt_base_pow_length (by decide) hdigit

end Digits

/-! ### Digits in a word -/

/-- One more digit behind a number in a 64-bit word, unless the number no longer fits. -/
def pushDigit? (n : Int64) (c : Char) : Option Int64 :=
  if n.toInt * 10 + digitValue c ≤ Int64.maxValue.toInt then some (n * 10 + .ofNat (digitValue c))
  else none

/-- The number that the digits denote, gathered digit by digit in a 64-bit word, and `none` as
soon as it no longer fits. -/
def Digits.word? (d : Digits) : Option Int64 := d.chars.foldlM pushDigit? 0

section Words

open Reader

/-- One more digit does not wrap: the number is given up before it would. -/
theorem pushDigit?_ofNat {n : Nat} (hn : n ≤ maxInt) (c : Char) : pushDigit? (.ofNat n) c =
    if 10 * n + digitValue c ≤ maxInt then some (.ofNat (10 * n + digitValue c)) else none := by
  have hmax : Int64.maxValue.toInt = (maxInt : Int) := by decide
  have hfits : (Int64.ofNat n).toInt * 10 + digitValue c ≤ Int64.maxValue.toInt ↔
      10 * n + digitValue c ≤ maxInt := by
    rw [toInt_ofNat_of_le_maxInt hn, hmax]
    omega
  have hword : Int64.ofNat n * 10 + .ofNat (digitValue c) = .ofNat (10 * n + digitValue c) := by
    rw [Int64.ofNat_add, Int64.ofNat_mul, Int64.mul_comm]
    rfl
  simp only [pushDigit?, hfits, hword]

/-- Further digits do not make a number smaller. -/
theorem le_ofDigitChars (n : Nat) (cs : List Char) : n ≤ Nat.ofDigitChars 10 cs n := by
  have hpow : 1 * n ≤ 10 ^ cs.length * n := Nat.mul_le_mul_right n (Nat.pow_pos (by decide))
  rw [Nat.ofDigitChars_eq_ofDigitChars_zero]
  omega

/-- From a number that fits, the loop comes to what the further digits make of it, or gives
up when that does not fit. -/
theorem foldlM_pushDigit? (cs : List Char) : ∀ {n : Nat}, n ≤ maxInt →
    cs.foldlM pushDigit? (.ofNat n) =
      if Nat.ofDigitChars 10 cs n ≤ maxInt then some (.ofNat (Nat.ofDigitChars 10 cs n))
      else none := by
  induction cs with
  | nil =>
    intro n hn
    rw [Nat.ofDigitChars_nil, if_pos hn]
    rfl
  | cons c cs ih =>
    intro n hn
    have hvalue : Nat.ofDigitChars 10 (c :: cs) n =
        Nat.ofDigitChars 10 cs (10 * n + digitValue c) := Nat.ofDigitChars_cons
    rw [List.foldlM_cons, pushDigit?_ofNat hn, hvalue]
    by_cases hfits : 10 * n + digitValue c ≤ maxInt
    · rw [if_pos hfits]
      exact ih hfits
    · -- once the number does not fit, no further digit makes it fit again
      have hle := le_ofDigitChars (10 * n + digitValue c) cs
      rw [if_neg hfits, if_neg fun h => hfits (Nat.le_trans hle h)]
      rfl

/-- **The loop over the digits gives up exactly when their value does not fit**, and otherwise
comes to it. -/
theorem Digits.word?_eq (d : Digits) :
    d.word? = if d.value ≤ maxInt then some (.ofNat d.value) else none := by
  rw [d.value_eq]
  exact foldlM_pushDigit? d.chars (Nat.zero_le maxInt)

end Words

/-! ### Too large for a double -/

namespace Magnitude

/-- An even number is rounded to from half a unit below it on. -/
theorem le_roundDiv_iff {num den s : Nat} (hden : 0 < den) (heven : s % 2 = 0) :
    s ≤ roundDiv num den ↔ 2 * s * den ≤ 2 * num + den := by
  have hdiv : den * (num / den) + num % den = num := Nat.div_add_mod num den
  have hmod : num % den < den := Nat.mod_lt num hden
  simp only [roundDiv]
  generalize num / den = q at *
  generalize num % den = t at *
  subst hdiv
  rcases Nat.lt_trichotomy s (q + 1) with hlt | rfl | hgt
  · -- the quotient or less
    have hle : s * den ≤ q * den := Nat.mul_le_mul_right den (by omega)
    refine iff_of_true ?_ (by nlinarith)
    split <;> omega
  · -- the number after the quotient, to which a tie goes since the quotient is odd
    constructor
    · intro h
      split at h
      · next hup =>
        simp only [Bool.or_eq_true, decide_eq_true_eq, Bool.and_eq_true, beq_iff_eq] at hup
        have hhalf : den ≤ 2 * t := by omega
        nlinarith
      · omega
    · intro h
      have hhalf : den ≤ 2 * t := by nlinarith
      split
      · exact Nat.le_refl _
      · next hdown =>
        simp only [Bool.or_eq_true, decide_eq_true_eq, Bool.and_eq_true, beq_iff_eq,
          not_or] at hdown
        omega
  · -- more than that
    have hge : (q + 2) * den ≤ s * den := Nat.mul_le_mul_right den (by omega)
    refine iff_of_false ?_ (by nlinarith)
    split <;> omega

/-- The scale is told by the power of two that a number stays below. -/
theorem scaleOf_le_iff {units scale : Nat} :
    scaleOf units ≤ scale ↔ units < 2 ^ (53 + scale) := by
  rw [scaleOf_eq_ite]
  split
  · next h =>
    refine iff_of_true (Nat.zero_le _) (Nat.lt_of_lt_of_le h ?_)
    exact Nat.pow_le_pow_right (by decide) (by omega)
  · next h =>
    have hpos : units ≠ 0 := by
      rintro rfl
      exact h (Nat.two_pow_pos 53)
    rw [← Nat.log2_lt hpos]
    omega

/-- There is no nearest magnitude when the scale is too large, and at the largest scale when
rounding carries beyond it. -/
theorem nearest?_eq_none_iff_scaleOf {num den : Nat} : nearest? num den = none ↔
    2045 < scaleOf (num * unitsPerOne / den) ∨
      scaleOf (num * unitsPerOne / den) = 2045 ∧
        2 ^ 53 ≤ roundDiv (num * unitsPerOne) (den * 2 ^ scaleOf (num * unitsPerOne / den)) := by
  have hpow : ∀ scale, Nat.pow 2 scale = 2 ^ scale := fun _ => rfl
  simp only [nearest?, hpow]
  split
  · next hlt =>
    split
    · exact iff_of_false (by simp) (by omega)
    · next hgt => exact iff_of_true rfl (Or.inl (by omega))
  · next hge =>
    split
    · exact iff_of_false (by simp) (by omega)
    · next hgt => exact iff_of_true rfl (by omega)

theorem unitsPerOne_pos : 0 < unitsPerOne := by
  rw [unitsPerOne_eq]
  generalize 1074 = k
  exact Nat.two_pow_pos k

end Magnitude

/-- The least number that is too large for a double: it lies halfway between the largest one,
`(2 ^ 53 - 1) * 2 ^ 971`, and the power of two behind it. -/
def Double.overflow : Nat := (2 ^ 54 - 1) * 2 ^ 970

namespace Magnitude

/-- **Reading overflows from halfway beyond the largest magnitude on.** -/
theorem nearest?_eq_none_iff {num den : Nat} (hden : 0 < den) :
    nearest? num den = none ↔ Double.overflow * den ≤ num := by
  -- all is compared in halves of a unit of the largest scale
  obtain ⟨half, hhalf⟩ : ∃ half, half = 2 ^ 970 * unitsPerOne := ⟨_, rfl⟩
  have hpow : ∀ k, 2 ^ (k + 2044) = 2 ^ k * half := by
    intro k
    rw [hhalf, unitsPerOne_eq, ← pow_add, ← pow_add]
  have hpos : 0 < half * den := by
    rw [hhalf]
    exact Nat.mul_pos (Nat.mul_pos (by positivity) unitsPerOne_pos) hden
  have hlimit : Double.overflow * den ≤ num ↔
      (2 ^ 54 - 1) * (half * den) ≤ num * unitsPerOne := by
    rw [Double.overflow, hhalf, ← Nat.mul_le_mul_right_iff unitsPerOne_pos]
    generalize unitsPerOne = one
    generalize 2 ^ 970 = p
    rw [show (2 ^ 54 - 1) * p * den * one = (2 ^ 54 - 1) * (p * one * den) by ring]
  have hscale : ∀ k, scaleOf (num * unitsPerOne / den) ≤ k + 2044 ↔
      num * unitsPerOne < 2 ^ (53 + k) * (half * den) := by
    intro k
    rw [scaleOf_le_iff, Nat.div_lt_iff_lt_mul hden, ← Nat.add_assoc, hpow, Nat.mul_assoc]
  have hbelow := hscale 0
  have hat := hscale 1
  rw [nearest?_eq_none_iff_scaleOf, hlimit]
  rcases Nat.lt_trichotomy (scaleOf (num * unitsPerOne / den)) 2045 with hlt | heq | hgt
  · -- below the largest scale rounding may still carry into it
    have := hbelow.mp (by omega)
    exact iff_of_false (by omega) (by omega)
  · have hunit : den * 2 ^ 2045 = 2 * (half * den) := by
      rw [hpow 1]
      ring
    rw [heq, hunit, le_roundDiv_iff (by omega) (by decide)]
    omega
  · have hge : 2 ^ 54 * (half * den) ≤ num * unitsPerOne := by
      by_contra hlt
      have := hat.mpr (by omega)
      omega
    exact iff_of_true (Or.inl hgt) (by omega)

end Magnitude

/-- A fraction is read as the infinity exactly when it is too large. -/
theorem Double.ofFraction_eq_infinite_iff {num den : Nat} (hden : 0 < den) (negative : Bool) :
    ofFraction negative num den = .infinite negative ↔ overflow * den ≤ num := by
  rw [← Magnitude.nearest?_eq_none_iff hden, ofFraction]
  cases Magnitude.nearest? num den with
  | none => exact iff_of_true rfl rfl
  | some m => exact iff_of_false (by simp) (by simp)

/-! ### Decimals with an exponent -/

namespace Magnitude

/-- Up to half a least unit, a fraction is read as zero. -/
theorem nearest?_eq_zero {num den : Nat} (hden : 0 < den) (h : 2 * (num * unitsPerOne) ≤ den) :
    nearest? num den = some zero := by
  have hlower : zero.lowerEnd = 0 := by rw [lowerEnd_eq]; rfl
  have hupper : zero.upperEnd = 2 := by rw [upperEnd_eq]; rfl
  refine nearest?_of_bounds_zero hden rfl ?_ ?_ fun _ => rfl
  · rw [hlower, Nat.zero_mul]
    exact Nat.zero_le _
  · rw [hupper]
    omega

end Magnitude

namespace Double

/-- From four hundred zeros on a power of ten is too large for a double. -/
theorem overflow_le_pow {k : Nat} (hk : 400 ≤ k) : overflow ≤ 10 ^ k := by
  have hle : overflow ≤ 10 ^ 400 := by decide +kernel
  obtain ⟨j, rfl⟩ := Nat.exists_eq_add_of_le hk
  rw [pow_add]
  exact hle.trans (Nat.le_mul_of_pos_right _ (Nat.pow_pos (by decide)))

/-- Half a least unit is no less than a one at the four-hundredth place behind the point. -/
theorem two_mul_unitsPerOne_le : 2 * Magnitude.unitsPerOne ≤ 10 ^ 400 := by decide +kernel

/-- **The double of a decimal with an exponent is the one nearest to what it denotes**: the
exponents that are decided without arithmetic are decided alike. -/
theorem ofScientific_eq (negative : Bool) (d : Digits) (exponent : Int) :
    ofScientific negative d.chars exponent =
      ofFraction negative (d.value * 10 ^ exponent.toNat) (10 ^ (-exponent).toNat) := by
  have hpow : ∀ k, 0 < 10 ^ k := fun k => Nat.pow_pos (by decide)
  have hzero : ∀ {num den : Nat}, 0 < den → 2 * (num * Magnitude.unitsPerOne) ≤ den →
      ofFraction negative num den = .finite negative .zero := fun hden h =>
    ofFraction_of_nearest? negative (Magnitude.nearest?_eq_zero hden h)
  simp only [ofScientific, ← d.value_eq]
  split_ifs with hvalue hlarge hsmall hnonneg
  · rw [hvalue, Nat.zero_mul]
    refine (hzero (hpow _) ?_).symm
    rw [Nat.zero_mul]
    exact Nat.zero_le _
  · -- the zeros behind the digits are too many
    have hden : 10 ^ (-exponent).toNat = 1 := by
      rw [show (-exponent).toNat = 0 by omega, pow_zero]
    have hle : overflow * 1 ≤ d.value * 10 ^ exponent.toNat := by
      calc overflow * 1 = overflow := Nat.mul_one overflow
        _ ≤ 10 ^ exponent.toNat := overflow_le_pow (by omega)
        _ ≤ d.value * 10 ^ exponent.toNat := Nat.le_mul_of_pos_left _ (Nat.pos_of_ne_zero hvalue)
    rw [hden]
    exact ((ofFraction_eq_infinite_iff Nat.one_pos negative).mpr hle).symm
  · -- the zeros between the point and the digits are too many
    refine (hzero (hpow _) ?_).symm
    rw [show exponent.toNat = 0 by omega, pow_zero, Nat.mul_one]
    calc 2 * (d.value * Magnitude.unitsPerOne)
        = d.value * (2 * Magnitude.unitsPerOne) := by ring
      _ ≤ 10 ^ d.chars.length * 10 ^ 400 :=
        Nat.mul_le_mul (Nat.le_of_lt d.value_lt) two_mul_unitsPerOne_le
      _ = 10 ^ (d.chars.length + 400) := (pow_add 10 _ _).symm
      _ ≤ 10 ^ (-exponent).toNat := Nat.pow_le_pow_right (by decide) (by omega)
  · rw [show (-exponent).toNat = 0 by omega, pow_zero]
    rfl
  · rw [show exponent.toNat = 0 by omega, pow_zero, Nat.mul_one]
    rfl

end Double

/-! ### Numbers as they are written -/

/-- A number as it is written: digits, or digits with a point between them. -/
inductive Numeral where
  | whole (digits : Digits)
  | decimal (digits places : Digits)

namespace Numeral

/-- The characters of the number. -/
def chars : Numeral → List Char
  | whole d => d.chars
  | decimal d p => d.chars ++ '.' :: p.chars

/-- The text of the number. -/
def text (n : Numeral) : String := String.ofList n.chars

/-- What the digits of the number denote without the point. -/
def num : Numeral → Nat
  | whole d => d.value
  | decimal d p => (d ++ p).value

/-- By how much the point divides it. -/
def den : Numeral → Nat
  | whole _ => 1
  | decimal _ p => 10 ^ p.chars.length

/-- The literal that the number is read as. -/
def literal : Numeral → Literal
  | whole d => Reader.natLiteral d.value
  | decimal d p => .float (.ofFraction false (decimal d p).num (decimal d p).den)

theorem den_pos (n : Numeral) : 0 < n.den := by
  cases n with
  | whole d => exact Nat.one_pos
  | decimal d p => exact Nat.pow_pos (by decide)

/-- A number begins with a digit. -/
theorem exists_chars_eq_cons (n : Numeral) : ∃ c s, n.chars = c :: s ∧ c.isDigit = true := by
  have hdigits : ∀ (d : Digits) (r : List Char),
      ∃ c s, d.chars ++ r = c :: s ∧ c.isDigit = true := by
    intro d r
    obtain ⟨c, s, hs⟩ := List.exists_cons_of_ne_nil d.ne_nil
    have hc : c ∈ d.chars := by
      rw [hs]
      exact List.mem_cons_self
    exact ⟨c, s ++ r, by rw [hs, List.cons_append], d.isDigit c hc⟩
  cases n with
  | whole d => simpa [chars] using hdigits d []
  | decimal d p => exact hdigits d _

/-- A number is read as its literal. -/
theorem literal_chars (n : Numeral) : Reader.literal n.chars = .ok n.literal [] := by
  cases n with
  | whole d =>
    have hread := Reader.literal_digits d.ne_nil d.isDigit apart_nil
    rwa [List.append_nil, ← d.value_eq] at hread
  | decimal d p =>
    have hread := Reader.literal_fraction d.ne_nil p.ne_nil d.isDigit p.isDigit apart_nil
    rwa [List.append_nil, ← Digits.chars_append, ← Digits.value_eq] at hread

end Numeral

open Reader in
/-- A literal that begins with a digit and takes up a whole text is what the text is read as. -/
theorem Expr.parse_of_literal {c : Char} {s : List Char} {l : Literal} (hc : c.isDigit = true)
    (h : literal (c :: s) = .ok l []) : Expr.parse (String.ofList (c :: s)) = .ok (lit l) := by
  have hname : isNameChar c = true := isNameChar_of_isWordChar (isWordChar_of_isDigit hc)
  have hat : AtToken (c :: s) :=
    atToken_cons (isGapStart_of_isOperandStart (isOperandStart_of_isNameChar hname)) s
  have hbare : Bare (c :: s) := by
    have hne := ne_of_isNameChar hname
    exact ⟨hat, by simpa using hne⟩
  have hprimary : ∀ fuel whole, primary fuel whole (c :: s) = .ok (lit l) [] := by
    intro fuel whole
    rw [primary_of_ne hat (head?_ne_of_isNameChar hname (by decide))
      (head?_ne_of_isNameChar hname (by decide)) (head?_ne_of_isNameChar hname (by decide)),
      orElse_ok (bind_pure_ok h)]
  -- the loosest tier reads what the tightest one does, since nothing follows
  have hexpr : Reader.expr ((c :: s).length + 1) (c :: s) = .ok (lit l) [] := by
    rw [Reader.expr, expression_eq_tier]
    exact tier_of_le (q := 13) (by decide) (by decide) (fun _ => hbare) (hprimary _ _) ends_nil
  rw [parse_of_expr_ok hexpr]
  rfl

namespace Numeral

/-- A number is read as its literal, and nothing of it is left. -/
theorem parse_text_literal (n : Numeral) : Expr.parse n.text = .ok (.lit n.literal) := by
  obtain ⟨c, s, hs, hc⟩ := n.exists_chars_eq_cons
  have hread := n.literal_chars
  rw [text]
  rw [hs] at hread ⊢
  exact Expr.parse_of_literal hc hread

end Numeral

/-! ### Integers -/

/-- **Digits read as the integer they denote, up to the largest one, and as a double beyond
it.**  The integer is the one that a loop over the digits comes to in 64-bit words, and the
loop gives up exactly where the double begins.  Zeros before the digits change nothing. -/
theorem Digits.parse_text_exact (d : Digits) :
    (d.value ≤ 2 ^ 63 - 1 ∧ (∃ n : Int64, Expr.parse d.text = .ok (.lit (.int n)) ∧
        n.toInt = d.value ∧ d.word? = some n) ∨
      2 ^ 63 - 1 < d.value ∧ d.word? = none ∧
        Expr.parse d.text = .ok (.lit (.float (.ofFraction false d.value 1)))) ∧
    ∀ zeros, Expr.parse (d.padded zeros).text = Expr.parse d.text := by
  have hparse : ∀ e : Digits, Expr.parse e.text = .ok (.lit (Reader.natLiteral e.value)) :=
    fun e => (Numeral.whole e).parse_text_literal
  have hmax : Reader.maxInt = 2 ^ 63 - 1 := rfl
  refine ⟨?_, fun zeros => by rw [hparse, hparse, value_padded]⟩
  rw [hparse, word?_eq, Reader.natLiteral, hmax]
  by_cases hfits : d.value ≤ 2 ^ 63 - 1
  · refine Or.inl ⟨hfits, .ofNat d.value, ?_, Reader.toInt_ofNat_of_le_maxInt hfits, ?_⟩
    · rw [if_pos hfits]
    · rw [if_pos hfits]
  · refine Or.inr ⟨Nat.lt_of_not_le hfits, ?_, ?_⟩
    · rw [if_neg hfits]
    · rw [if_neg hfits]

/-! ### Printing what was read -/

/-- The literal is a number. -/
def Literal.isNumber : Literal → Bool
  | .int _ | .float _ => true
  | .str _ _ | .bool _ | .null => false

namespace Numeral

theorem isNumber_literal (n : Numeral) : n.literal.isNumber = true := by
  cases n with
  | whole d =>
    rw [literal, Reader.natLiteral]
    split <;> rfl
  | decimal d p => rfl

theorem readable_literal (n : Numeral) : n.literal.readable = true := by
  cases n with
  | whole d => exact Reader.readable_natLiteral d.value
  | decimal d p => exact Literal.readable_ofFraction _ _

/-- Only a number that is too large for a double is read as the infinity. -/
theorem literal_eq_infinite_iff (n : Numeral) :
    n.literal = .float (.infinite false) ↔ Double.overflow * n.den ≤ n.num := by
  cases n with
  | whole d =>
    rw [literal, Reader.natLiteral]
    split
    · -- an integer that fits is far from being too large
      next hfits =>
      have hfar : Reader.maxInt < Double.overflow := by decide +kernel
      refine iff_of_false (by simp) ?_
      show ¬ Double.overflow * 1 ≤ d.value
      omega
    · rw [Literal.float.injEq]
      exact Double.ofFraction_eq_infinite_iff Nat.one_pos false
  | decimal d p =>
    rw [literal, Literal.float.injEq]
    exact Double.ofFraction_eq_infinite_iff (den_pos _) false

/-- **A number is printed as a number exactly when it is not too large for a double.**  Every
number is read as a literal that is a number.  Below the overflow its text reads back as the
same literal; from there on it is the infinity, and its text reads as a name. -/
theorem parse_text_reread (n : Numeral) :
    ∃ l : Literal, l.isNumber = true ∧ Expr.parse n.text = .ok (.lit l) ∧
      (n.num < Double.overflow * n.den ∧ Expr.parse (String.ofList l.text) = .ok (.lit l) ∨
        Double.overflow * n.den ≤ n.num ∧ l = .float (.infinite false) ∧
          Expr.parse (String.ofList l.text) = .ok (.name "inf")) := by
  have hwritten := Expr.written_ofReadable n.readable_literal
  have hback := Expr.parse_of_written isGap_nil hwritten isGap_nil
  rw [List.nil_append, List.append_nil] at hback
  refine ⟨n.literal, n.isNumber_literal, n.parse_text_literal, ?_⟩
  rw [hback]
  by_cases hlarge : Double.overflow * n.den ≤ n.num
  · have hinfinite := n.literal_eq_infinite_iff.mpr hlarge
    refine Or.inr ⟨hlarge, hinfinite, ?_⟩
    rw [hinfinite]
    rfl
  · have hlexical : n.literal.lexical = true := by
      have hread := n.readable_literal
      rw [Literal.readable, Bool.or_eq_true, beq_iff_eq] at hread
      exact hread.resolve_right fun h => hlarge (n.literal_eq_infinite_iff.mp h)
    refine Or.inl ⟨Nat.lt_of_not_le hlarge, ?_⟩
    rw [Expr.ofReadable, if_pos hlexical]

/-- The number two with 308 zeros: it is read as the infinity, whose text is read as a name. -/
theorem parse_text_reread_overflow :
    let source := String.ofList ('2' :: List.replicate 308 '0')
    let l := Literal.float (.infinite false)
    Expr.parse source = .ok (.lit l) ∧ String.ofList l.text = "inf" ∧
      Expr.parse "inf" = .ok (.name "inf") := by
  refine ⟨?_, rfl, by decide +kernel⟩
  have hdigit : ∀ c ∈ '2' :: List.replicate 308 '0', c.isDigit = true := by
    intro c hc
    rcases List.mem_cons.mp hc with rfl | hc
    · rfl
    · exact isDigit_of_mem_zeros hc
  let d : Digits := ⟨'2' :: List.replicate 308 '0', List.cons_ne_nil _ _, hdigit⟩
  have hzeros : ∀ k, Nat.ofDigitChars 10 ('2' :: List.replicate k '0') 0 = 10 ^ k * 2 := by
    intro k
    rw [Nat.ofDigitChars_cons, Nat.ofDigitChars_replicate_zero]
    rfl
  have hlarge : Double.overflow * (whole d).den ≤ (whole d).num := by
    show Double.overflow * 1 ≤ d.value
    rw [d.value_eq, hzeros]
    decide +kernel
  exact (whole d).literal_eq_infinite_iff.mpr hlarge ▸ (whole d).parse_text_literal

end Numeral

end Casework
