/-!
# Double-precision numbers

The numbers of the 64-bit binary format, held exactly rather than as machine
words, so that reading and printing them are plain arithmetic on `Nat`.

Every finite number of the format is a whole multiple of the least positive one,
`2 ^ (-1074)`.  Its magnitude is therefore given by a significand of at most 53
bits and a scale: `significand * 2 ^ scale` of those least units.  The pair is
unique once a positive scale requires all 53 bits.

Powers are written with `Nat.pow`, which stands for the same function wherever a
monoid has powers too.

## Main definitions

* `Magnitude` — the absolute value of a finite number.
* `Magnitude.nearest?` — the magnitude nearest to a fraction, a tie going to the
  even significand, and `none` when it lies beyond the largest one.
* `Double` — a signed magnitude, a signed infinity, or not a number.
* `Double.ofFraction`, `Double.ofScientific` — the double nearest to a fraction
  or to a decimal with an exponent.

## Main results

* `Magnitude.scaleOf_spec` — the scale chosen for a quotient leaves a
  significand in the range of its format.
-/

namespace Casework

/-! ### Magnitudes -/

/-- The absolute value of a finite number: `significand * 2 ^ scale` units of
`2 ^ (-1074)`. -/
structure Magnitude where
  /-- The leading bits. -/
  significand : Nat
  /-- The power of two they are multiplied by. -/
  scale : Nat
  /-- There are at most 53 leading bits. -/
  significand_lt : significand < Nat.pow 2 53
  /-- A positive scale goes with exactly 53 of them, so that no number has two
  forms. -/
  normal : scale = 0 ∨ Nat.pow 2 52 ≤ significand
  /-- The largest scale of the format. -/
  scale_le : scale ≤ 2045
  deriving DecidableEq

namespace Magnitude

/-- Least units in the number one. -/
def unitsPerOne : Nat := Nat.pow 2 1074

/-- The magnitude as a count of least units. -/
def units (m : Magnitude) : Nat := m.significand * Nat.pow 2 m.scale

/-- Zero. -/
def zero : Magnitude := ⟨0, 0, by decide, Or.inl rfl, by decide⟩

/-- The scale at which the given count of least units has a significand of at
most 53 bits. -/
def scaleOf (units : Nat) : Nat :=
  if units < Nat.pow 2 53 then 0 else units.log2 - 52

/-- At the chosen scale the significand has at most 53 bits, and all of them
when the scale is positive. -/
theorem scaleOf_spec (units : Nat) :
    units / Nat.pow 2 (scaleOf units) < Nat.pow 2 53 ∧
      (scaleOf units = 0 ∨ Nat.pow 2 52 ≤ units / Nat.pow 2 (scaleOf units)) := by
  unfold scaleOf
  split
  · next h => exact ⟨by simpa using h, Or.inl rfl⟩
  · next h =>
    have hle : Nat.pow 2 53 ≤ units := Nat.le_of_not_lt h
    have hpos : units ≠ 0 := Nat.ne_of_gt (Nat.lt_of_lt_of_le (Nat.two_pow_pos 53) hle)
    have hlog : 53 ≤ units.log2 := (Nat.le_log2 hpos).mpr hle
    have hlow : Nat.pow 2 units.log2 ≤ units := Nat.log2_self_le hpos
    have hhigh : units < Nat.pow 2 (units.log2 + 1) := Nat.lt_log2_self
    have hsplit : Nat.pow 2 units.log2 = Nat.pow 2 52 * Nat.pow 2 (units.log2 - 52) := by
      rw [show units.log2 = 52 + (units.log2 - 52) by omega, Nat.add_sub_cancel_left]
      exact Nat.pow_add 2 52 _
    have hsplit' : Nat.pow 2 (units.log2 + 1) = Nat.pow 2 53 * Nat.pow 2 (units.log2 - 52) := by
      rw [show units.log2 + 1 = 53 + (units.log2 - 52) by omega]
      exact Nat.pow_add 2 53 _
    refine ⟨(Nat.div_lt_iff_lt_mul (Nat.two_pow_pos _)).mpr (hsplit' ▸ hhigh), Or.inr ?_⟩
    exact (Nat.le_div_iff_mul_le (Nat.two_pow_pos _)).mpr (hsplit ▸ hlow)

/-- The quotient rounded to the nearest whole number, a tie to the even one. -/
def roundDiv (num den : Nat) : Nat :=
  let quotient := num / den
  let twice := 2 * (num % den)
  if twice > den || (twice == den && quotient % 2 == 1) then quotient + 1 else quotient

/-- Rounding gives the quotient or the number after it. -/
theorem roundDiv_eq_or (num den : Nat) :
    roundDiv num den = num / den ∨ roundDiv num den = num / den + 1 := by
  simp only [roundDiv]
  split
  · exact Or.inr rfl
  · exact Or.inl rfl

/-- The magnitude nearest to `num / den`, a tie going to the even significand.
There is none when the fraction rounds to more than the largest magnitude. -/
def nearest? (num den : Nat) : Option Magnitude :=
  let units := num * unitsPerOne
  let scale := scaleOf (units / den)
  let rounded := roundDiv units (den * Nat.pow 2 scale)
  if hlt : rounded < Nat.pow 2 53 then
    if hle : scale ≤ 2045 then
      some ⟨rounded, scale, hlt, normal_of_rounded units den, hle⟩
    else none
  else if hle : scale + 1 ≤ 2045 then
    some ⟨Nat.pow 2 52, scale + 1, by decide, Or.inr (Nat.le_refl _), hle⟩
  else none
where
  /-- Rounding up does not lose a leading bit. -/
  normal_of_rounded (units den : Nat) :
      scaleOf (units / den) = 0 ∨
        Nat.pow 2 52 ≤ roundDiv units (den * Nat.pow 2 (scaleOf (units / den))) := by
    rcases (scaleOf_spec (units / den)).2 with h | h
    · exact Or.inl h
    · rw [Nat.div_div_eq_div_mul] at h
      rcases roundDiv_eq_or units (den * Nat.pow 2 (scaleOf (units / den))) with hr | hr
      · exact Or.inr (hr ▸ h)
      · exact Or.inr (hr ▸ Nat.le_succ_of_le h)

end Magnitude

/-! ### Doubles -/

/-- A number of the 64-bit binary format.  The sign of a zero and of an infinity
is kept. -/
inductive Double where
  | finite (negative : Bool) (magnitude : Magnitude)
  | infinite (negative : Bool)
  | nan
  deriving DecidableEq

namespace Double

/-- The double of the given sign nearest to `num / den`; an infinity when the
fraction is too large. -/
def ofFraction (negative : Bool) (num den : Nat) : Double :=
  (Magnitude.nearest? num den).elim (.infinite negative) (.finite negative)

/-- The double of the given sign nearest to the number that the digits denote,
multiplied by `10 ^ exponent`.

With more than four hundred digits before the point nothing is finite, and with
four hundred zeros behind it nothing differs from zero, so exponents that far
out need no arithmetic. -/
def ofScientific (negative : Bool) (digits : List Char) (exponent : Int) : Double :=
  let num := Nat.ofDigitChars 10 digits 0
  if num = 0 then .finite negative .zero
  else if exponent > 400 then .infinite negative
  else if exponent + digits.length < -400 then .finite negative .zero
  else if 0 ≤ exponent then ofFraction negative (num * Nat.pow 10 exponent.toNat) 1
  else ofFraction negative num (Nat.pow 10 (-exponent).toNat)

end Double

end Casework
