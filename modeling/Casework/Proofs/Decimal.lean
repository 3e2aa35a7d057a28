import Mathlib.Tactic.Linarith
import Mathlib.Tactic.Ring
import Casework.Number.Decimal

/-!
# Decimal texts read back

The decimal text of a double lies in its rounding interval, and reading picks the
nearest magnitude, so a finite double is read back from its own text.  Reading
chooses a scale first: the fraction lies in the binade of the magnitude, or just
below it when the significand is the least of its scale, and then rounding up
carries it over.

## Main results

* `Magnitude.roundDiv_eq` — the one number within half a unit is rounded to.
* `Magnitude.nearest?_of_reads` — **what lies in the rounding interval reads as
  the magnitude.**
* `Magnitude.reads_shortest` — the shortest decimal lies in the interval.
* `Magnitude.exists_text_eq` — the text is digits, a point and digits that
  denote a fraction which reads back.
-/

namespace Casework
namespace Magnitude

/-! ### Powers -/

theorem unitsPerOne_eq : unitsPerOne = 2 ^ 1074 := by
  unfold unitsPerOne
  -- the power itself is never computed
  generalize 1074 = k
  rfl

theorem units_eq (m : Magnitude) : m.units = m.significand * 2 ^ m.scale := rfl

theorem lowerEnd_eq (m : Magnitude) :
    m.lowerEnd = 4 * (m.significand * 2 ^ m.scale) -
      (if m.significand = 2 ^ 52 ∧ 0 < m.scale then 1 else 2) * 2 ^ m.scale := rfl

theorem upperEnd_eq (m : Magnitude) :
    m.upperEnd = 4 * (m.significand * 2 ^ m.scale) + 2 * 2 ^ m.scale := rfl

theorem scaleOf_eq_ite (units : Nat) :
    scaleOf units = if units < 2 ^ 53 then 0 else units.log2 - 52 := rfl

theorem positional_eq (places n : Nat) :
    positional places n = natText (n / 10 ^ places) ++
      '.' :: (List.replicate (places - (natText (n % 10 ^ places)).length) '0' ++
        natText (n % 10 ^ places)) := rfl

/-! ### Rounding a quotient -/

/-- A quotient within half a unit of a number is rounded to it, at exactly half a
unit only when the number is even. -/
theorem roundDiv_eq {num den s : Nat} (hden : 0 < den) (hlow : 2 * s * den ≤ 2 * num + den)
    (hhigh : 2 * num ≤ (2 * s + 1) * den)
    (htie : 2 * s * den = 2 * num + den ∨ 2 * num = (2 * s + 1) * den → s % 2 = 0) :
    roundDiv num den = s := by
  have hdiv : den * (num / den) + num % den = num := Nat.div_add_mod num den
  have hmod : num % den < den := Nat.mod_lt num hden
  simp only [roundDiv]
  generalize num / den = q at *
  generalize num % den = t at *
  subst hdiv
  -- the number is the quotient or the one after it
  have hle : q ≤ s := by
    by_contra hlt
    have : (s + 1) * den ≤ q * den := Nat.mul_le_mul_right den (by omega)
    nlinarith
  have hge : s ≤ q + 1 := by
    by_contra hlt
    have : (q + 2) * den ≤ s * den := Nat.mul_le_mul_right den (by omega)
    nlinarith
  rcases Nat.lt_or_ge q s with hs | hs
  · obtain rfl : s = q + 1 := by omega
    have hup : den ≤ 2 * t := by nlinarith
    have htie' : 2 * t = den → q % 2 = 1 := by
      intro h
      have := htie (Or.inl (by nlinarith))
      omega
    split
    · rfl
    · next h =>
      simp only [Bool.or_eq_true, decide_eq_true_eq, Bool.and_eq_true, beq_iff_eq, not_or] at h
      rcases Nat.lt_or_ge den (2 * t) with hlt | hge'
      · exact absurd hlt h.1
      · have heq : 2 * t = den := by omega
        exact absurd ⟨heq, htie' heq⟩ h.2
  · obtain rfl : s = q := by omega
    have hdown : 2 * t ≤ den := by nlinarith
    have htie' : 2 * t = den → s % 2 = 0 := by
      intro h
      exact htie (Or.inr (by nlinarith))
    split
    · next h =>
      simp only [Bool.or_eq_true, decide_eq_true_eq, Bool.and_eq_true, beq_iff_eq] at h
      rcases h with h | ⟨h, hodd⟩
      · omega
      · have := htie' h
        omega
    · rfl

/-! ### The scale of a quotient -/

/-- Inside a binade the scale is that of the binade. -/
theorem scaleOf_eq {units scale : Nat} (hscale : 0 < scale) (hlow : 2 ^ (52 + scale) ≤ units)
    (hhigh : units < 2 ^ (53 + scale)) : scaleOf units = scale := by
  have hle : 2 ^ 53 ≤ 2 ^ (52 + scale) := Nat.pow_le_pow_right (by decide) (by omega)
  have hpos : units ≠ 0 := by
    have := Nat.two_pow_pos (52 + scale)
    omega
  have hlog : units.log2 = 52 + scale := by
    have h₁ := (Nat.le_log2 hpos).mpr hlow
    have h₂ := (Nat.log2_lt hpos).mpr hhigh
    omega
  rw [scaleOf_eq_ite, if_neg (by omega), hlog]
  omega

/-- Below the first binade nothing is scaled. -/
theorem scaleOf_eq_zero {units : Nat} (h : units < 2 ^ 53) : scaleOf units = 0 :=
  if_pos h

/-! ### Reading what lies in the interval -/

/-- Reading gives the magnitude whose scale and significand are computed. -/
theorem nearest?_eq_some {num den : Nat} (m : Magnitude)
    (hscale : scaleOf (num * unitsPerOne / den) = m.scale)
    (hround : roundDiv (num * unitsPerOne) (den * 2 ^ m.scale) = m.significand) :
    nearest? num den = some m := by
  change roundDiv (num * unitsPerOne) (den * Nat.pow 2 m.scale) = m.significand at hround
  obtain ⟨significand, scale, hlt, hnormal, hle⟩ := m
  simp only at hscale hround
  subst hscale
  subst hround
  simp only [nearest?]
  rw [dif_pos hlt, dif_pos hle]

/-- Rounding up may carry into the next scale, where the significand is least. -/
theorem nearest?_eq_some_of_carry {num den : Nat} (m : Magnitude) (hm : m.significand = 2 ^ 52)
    (hscale : scaleOf (num * unitsPerOne / den) + 1 = m.scale)
    (hround : roundDiv (num * unitsPerOne)
      (den * 2 ^ scaleOf (num * unitsPerOne / den)) = 2 ^ 53) :
    nearest? num den = some m := by
  change roundDiv (num * unitsPerOne)
    (den * Nat.pow 2 (scaleOf (num * unitsPerOne / den))) = Nat.pow 2 53 at hround
  change m.significand = Nat.pow 2 52 at hm
  obtain ⟨significand, scale, hlt, hnormal, hle⟩ := m
  simp only at hscale hm
  subst hscale
  subst hm
  simp only [nearest?]
  rw [dif_neg (by rw [hround]; exact Nat.lt_irrefl _), dif_pos hle]

/-- The rounding interval as bounds on the fraction; its ends belong to it only
when the significand is even. -/
theorem bounds_of_reads {m : Magnitude} {num den : Nat} (h : m.reads num den = true) :
    m.lowerEnd * den ≤ 4 * (num * unitsPerOne) ∧ 4 * (num * unitsPerOne) ≤ m.upperEnd * den ∧
      (m.lowerEnd * den = 4 * (num * unitsPerOne) ∨
        4 * (num * unitsPerOne) = m.upperEnd * den → m.significand % 2 = 0) := by
  simp only [reads, Nat.mul_assoc] at h
  split at h
  · next heven =>
    simp only [Bool.and_eq_true, decide_eq_true_eq] at h
    exact ⟨h.1, h.2, fun _ => heven⟩
  · simp only [Bool.and_eq_true, decide_eq_true_eq] at h
    exact ⟨Nat.le_of_lt h.1, Nat.le_of_lt h.2, fun hend => by omega⟩

/-- Without a scale the interval reaches half a unit to either side. -/
theorem nearest?_of_bounds_zero {m : Magnitude} {num den : Nat} (hden : 0 < den)
    (hscale : m.scale = 0) (hlow : m.lowerEnd * den ≤ 4 * (num * unitsPerOne))
    (hhigh : 4 * (num * unitsPerOne) ≤ m.upperEnd * den)
    (htie : m.lowerEnd * den = 4 * (num * unitsPerOne) ∨
      4 * (num * unitsPerOne) = m.upperEnd * den → m.significand % 2 = 0) :
    nearest? num den = some m := by
  have hlt : m.significand < 2 ^ 53 := m.significand_lt
  simp only [lowerEnd_eq, upperEnd_eq, hscale, Nat.lt_irrefl, and_false, if_false, pow_zero,
    Nat.mul_one] at hlow hhigh htie
  have hquot : num * unitsPerOne / den < 2 ^ 53 := by
    rw [Nat.div_lt_iff_lt_mul hden]
    have : (m.significand + 1) * den ≤ 2 ^ 53 * den := Nat.mul_le_mul_right den hlt
    nlinarith
  have hzero : scaleOf (num * unitsPerOne / den) = m.scale := by
    rw [scaleOf_eq_zero hquot, hscale]
  refine nearest?_eq_some m hzero ?_
  rw [hscale, pow_zero, Nat.mul_one]
  -- the lower end is cut off at zero
  rcases Nat.eq_zero_or_pos m.significand with hz | hpos
  · rw [hz] at hhigh htie ⊢
    refine roundDiv_eq hden (by omega) (by linarith) (fun _ => rfl)
  · obtain ⟨k, hk⟩ : ∃ k, m.significand = k + 1 := ⟨m.significand - 1, by omega⟩
    rw [hk] at hlow hhigh htie ⊢
    rw [show 4 * (k + 1) - 2 = 4 * k + 2 by omega] at hlow htie
    refine roundDiv_eq hden (by linarith) (by linarith) fun hend => htie ?_
    rcases hend with hend | hend
    · exact Or.inl (by linarith)
    · exact Or.inr (by linarith)

/-- The lower end lies half a unit of the scale below the magnitude, or a quarter
of one when the significand is the least. -/
theorem lowerEnd_add {m : Magnitude} (hpos : 0 < m.significand) :
    m.lowerEnd + (if m.significand = 2 ^ 52 ∧ 0 < m.scale then 1 else 2) * 2 ^ m.scale =
      4 * (m.significand * 2 ^ m.scale) := by
  have : 1 * 2 ^ m.scale ≤ m.significand * 2 ^ m.scale := Nat.mul_le_mul_right _ hpos
  rw [lowerEnd_eq]
  split <;> omega

/-- In the binade of the magnitude the interval reaches at most half a unit of its
scale to either side. -/
theorem nearest?_of_bounds_ge {m : Magnitude} {num den : Nat} (hden : 0 < den)
    (hscale : 0 < m.scale) (hbinade : 2 ^ 52 * (2 ^ m.scale * den) ≤ num * unitsPerOne)
    (hlow : m.lowerEnd * den ≤ 4 * (num * unitsPerOne))
    (hhigh : 4 * (num * unitsPerOne) ≤ m.upperEnd * den)
    (htie : m.lowerEnd * den = 4 * (num * unitsPerOne) ∨
      4 * (num * unitsPerOne) = m.upperEnd * den → m.significand % 2 = 0) :
    nearest? num den = some m := by
  have hlt : m.significand < 2 ^ 53 := m.significand_lt
  have hge : 2 ^ 52 ≤ m.significand := m.normal.resolve_left (by omega)
  have hpos : 0 < 2 ^ m.scale * den := Nat.mul_pos (Nat.two_pow_pos _) hden
  have hlower := lowerEnd_add (m := m) (by omega)
  have hupper : m.upperEnd * den = (4 * m.significand + 2) * (2 ^ m.scale * den) := by
    rw [upperEnd_eq]
    ring
  rw [hupper] at hhigh htie
  have hquot : scaleOf (num * unitsPerOne / den) = m.scale := by
    refine scaleOf_eq hscale ?_ ?_
    · rw [Nat.le_div_iff_mul_le hden, pow_add, Nat.mul_assoc]
      exact hbinade
    · rw [Nat.div_lt_iff_lt_mul hden, pow_add, Nat.mul_assoc]
      have : (m.significand + 1) * (2 ^ m.scale * den) ≤ 2 ^ 53 * (2 ^ m.scale * den) :=
        Nat.mul_le_mul_right _ hlt
      nlinarith
  refine nearest?_eq_some m hquot ?_
  rw [Nat.mul_comm den]
  split at hlower
  · -- the least significand: the fraction is not below the magnitude
    next hleast =>
    rw [hleast.1] at hhigh htie ⊢
    exact roundDiv_eq hpos (by linarith) (by linarith) (fun _ => by decide)
  · have hlow' : m.lowerEnd * den + 2 * (2 ^ m.scale * den) =
        4 * (m.significand * (2 ^ m.scale * den)) := by
      rw [← Nat.mul_assoc m.significand, ← Nat.mul_assoc 4, ← hlower]
      ring
    refine roundDiv_eq hpos (by linarith) (by linarith) fun hend => htie ?_
    rcases hend with hend | hend
    · exact Or.inl (by linarith)
    · exact Or.inr (by linarith)

/-- Below the binade of the magnitude the scale is one less, and rounding up
carries over. -/
theorem nearest?_of_bounds_lt {m : Magnitude} {num den : Nat} (hden : 0 < den)
    (hscale : 0 < m.scale) (hbinade : num * unitsPerOne < 2 ^ 52 * (2 ^ m.scale * den))
    (hlow : m.lowerEnd * den ≤ 4 * (num * unitsPerOne)) : nearest? num den = some m := by
  have hge : 2 ^ 52 ≤ m.significand := m.normal.resolve_left (by omega)
  have hlower := lowerEnd_add (m := m) (by omega)
  have hleast : m.significand = 2 ^ 52 := by
    by_contra hne
    rw [if_neg (fun h => hne h.1)] at hlower
    have hlow' : m.lowerEnd * den + 2 * (2 ^ m.scale * den) =
        4 * (m.significand * (2 ^ m.scale * den)) := by
      rw [← Nat.mul_assoc m.significand, ← Nat.mul_assoc 4, ← hlower]
      ring
    have : (2 ^ 52 + 1) * (2 ^ m.scale * den) ≤ m.significand * (2 ^ m.scale * den) :=
      Nat.mul_le_mul_right _ (by omega)
    have : 0 < 2 ^ m.scale * den := Nat.mul_pos (Nat.two_pow_pos _) hden
    linarith
  rw [if_pos ⟨hleast, hscale⟩, hleast] at hlower
  obtain ⟨k, hk⟩ : ∃ k, m.scale = k + 1 := ⟨m.scale - 1, by omega⟩
  rw [hk, pow_succ 2 k] at hbinade hlower
  have hpos : 0 < 2 ^ k * den := Nat.mul_pos (Nat.two_pow_pos _) hden
  have hlow' : m.lowerEnd * den + 2 * (2 ^ k * den) = 2 ^ 55 * (2 ^ k * den) := by
    have : (m.lowerEnd + 1 * (2 ^ k * 2)) * den = 4 * (2 ^ 52 * (2 ^ k * 2)) * den := by
      rw [hlower]
    linarith
  have hlt : num * unitsPerOne / den < 2 ^ (53 + k) := by
    rw [Nat.div_lt_iff_lt_mul hden, pow_add, Nat.mul_assoc]
    linarith
  have hquot : scaleOf (num * unitsPerOne / den) = k := by
    rcases Nat.eq_zero_or_pos k with rfl | hkpos
    · exact scaleOf_eq_zero hlt
    · refine scaleOf_eq hkpos ?_ hlt
      rw [Nat.le_div_iff_mul_le hden, pow_add, Nat.mul_assoc]
      linarith
  refine nearest?_eq_some_of_carry m hleast (by rw [hquot, hk]) ?_
  rw [hquot, Nat.mul_comm den]
  exact roundDiv_eq hpos (by linarith) (by linarith) (fun _ => by decide)

/-- **What lies in the rounding interval reads as the magnitude.** -/
theorem nearest?_of_reads {m : Magnitude} {num den : Nat} (hden : 0 < den)
    (h : m.reads num den = true) : nearest? num den = some m := by
  obtain ⟨hlow, hhigh, htie⟩ := bounds_of_reads h
  rcases Nat.eq_zero_or_pos m.scale with hscale | hscale
  · exact nearest?_of_bounds_zero hden hscale hlow hhigh htie
  · rcases Nat.lt_or_ge (num * unitsPerOne) (2 ^ 52 * (2 ^ m.scale * den)) with hbinade | hbinade
    · exact nearest?_of_bounds_lt hden hscale hbinade hlow
    · exact nearest?_of_bounds_ge hden hscale hbinade hlow hhigh htie

/-! ### The shortest decimal lies in the interval -/

/-- A fraction that equals the magnitude lies in its rounding interval. -/
theorem reads_of_exact {m : Magnitude} {num den : Nat} (hden : 0 < den)
    (h : num * unitsPerOne = m.units * den) : m.reads num den = true := by
  have hpoint : 4 * num * unitsPerOne = 4 * m.units * den := by
    rw [Nat.mul_assoc, h, Nat.mul_assoc]
  have hlow : m.lowerEnd ≤ 4 * m.units := Nat.sub_le _ _
  have hhigh : 4 * m.units < m.upperEnd := by
    have := Nat.two_pow_pos m.scale
    rw [upperEnd_eq, units_eq]
    omega
  simp only [reads, hpoint]
  split
  · simp only [Bool.and_eq_true, decide_eq_true_eq]
    exact ⟨Nat.mul_le_mul_right den hlow, Nat.mul_le_mul_right den (Nat.le_of_lt hhigh)⟩
  · next hodd =>
    have hlt : m.lowerEnd < 4 * m.units := by
      have hadd := lowerEnd_add (m := m) (by omega)
      have := Nat.two_pow_pos m.scale
      rw [units_eq]
      split at hadd <;> omega
    simp only [Bool.and_eq_true, decide_eq_true_eq]
    exact ⟨Nat.mul_lt_mul_of_pos_right hlt hden, Nat.mul_lt_mul_of_pos_right hhigh hden⟩

/-- A decimal that is taken lies in the rounding interval. -/
theorem reads_of_decimalAt? {m : Magnitude} {places n : Nat} (h : m.decimalAt? places = some n) :
    m.reads n (10 ^ places) = true := by
  simp only [decimalAt?] at h
  split at h
  · next hbelow habove =>
    rw [Option.some.injEq] at h
    split at h
    · exact h ▸ habove
    · exact h ▸ hbelow
  · next hbelow _ => exact Option.some.inj h ▸ hbelow
  · next _ habove => exact Option.some.inj h ▸ habove
  · cases h

/-- With as many places as the least unit has binary ones, some decimal is taken. -/
theorem isSome_decimalAt?_of_exact (m : Magnitude) {places : Nat}
    (hplaces : unitsPerOne = 2 ^ places) : (m.decimalAt? places).isSome = true := by
  have hten : 10 ^ places = 5 ^ places * unitsPerOne := by
    rw [hplaces, ← Nat.mul_pow]
  have hbelow : m.units * 10 ^ places / unitsPerOne = m.units * 5 ^ places := by
    rw [hten, ← Nat.mul_assoc]
    exact Nat.mul_div_cancel _ (hplaces ▸ Nat.two_pow_pos places)
  have hreads : m.reads (m.units * 10 ^ places / unitsPerOne) (10 ^ places) = true := by
    refine reads_of_exact (Nat.pow_pos (by decide)) ?_
    rw [hbelow, hten, Nat.mul_assoc]
  change m.reads (m.units * Nat.pow 10 places / unitsPerOne) (Nat.pow 10 places) = true at hreads
  simp only [decimalAt?, hreads]
  split <;> simp_all

/-- The search ends at a decimal that lies in the interval, once one is in reach. -/
theorem reads_shortestFrom (m : Magnitude) : ∀ (fuel places last : Nat), places ≤ last →
    last < places + fuel → (m.decimalAt? last).isSome = true →
    places ≤ (m.shortestFrom fuel places).1 ∧
      m.reads (m.shortestFrom fuel places).2 (10 ^ (m.shortestFrom fuel places).1) = true := by
  intro fuel
  induction fuel with
  | zero => intro places last hle hlt; omega
  | succ fuel ih =>
    intro places last hle hlt hlast
    cases hat : m.decimalAt? places with
    | some n =>
      have heq : m.shortestFrom (fuel + 1) places = (places, n) := by
        simp only [shortestFrom, hat]
      rw [heq]
      exact ⟨Nat.le_refl _, reads_of_decimalAt? hat⟩
    | none =>
      have heq : m.shortestFrom (fuel + 1) places = m.shortestFrom fuel (places + 1) := by
        simp only [shortestFrom, hat]
      have hne : places ≠ last := by
        rintro rfl
        rw [hat] at hlast
        cases hlast
      obtain ⟨hge, hreads⟩ := ih (places + 1) last (by omega) (by omega) hlast
      rw [heq]
      exact ⟨by omega, hreads⟩

/-- The shortest decimal has at least one place and lies in the interval. -/
theorem reads_shortest (m : Magnitude) :
    1 ≤ m.shortest.1 ∧ m.reads m.shortest.2 (10 ^ m.shortest.1) = true :=
  reads_shortestFrom m 1074 1 1074 (by decide) (by decide)
    (isSome_decimalAt?_of_exact m unitsPerOne_eq)

/-! ### The text of a magnitude -/

/-- The digits of a number are decimal digits. -/
theorem isDigit_of_mem_natText {n : Nat} {c : Char} (h : c ∈ natText n) : c.isDigit = true :=
  Nat.isDigit_of_mem_toDigits (by decide) (by decide) h

/-- There is at least one digit. -/
theorem natText_ne_nil (n : Nat) : natText n ≠ [] := Nat.toDigits_ne_nil

/-- The digits of a number denote it. -/
theorem ofDigitChars_natText (n : Nat) : Nat.ofDigitChars 10 (natText n) 0 = n :=
  Nat.ofDigitChars_ten_toDigits

/-- The digits behind the point, padded to the given count of places. -/
theorem ofDigitChars_positional {places n : Nat} (hplaces : 1 ≤ places) :
    let fraction := List.replicate (places - (natText (n % 10 ^ places)).length) '0' ++
      natText (n % 10 ^ places)
    fraction.length = places ∧
      Nat.ofDigitChars 10 (natText (n / 10 ^ places) ++ fraction) 0 = n := by
  intro fraction
  have hmod : n % 10 ^ places < 10 ^ places := Nat.mod_lt _ (Nat.pow_pos (by decide))
  have hlen : (natText (n % 10 ^ places)).length ≤ places :=
    (Nat.length_toDigits_le_iff (by decide) hplaces).mpr hmod
  refine ⟨by simp [fraction]; omega, ?_⟩
  have hpow : 10 ^ (natText (n % 10 ^ places)).length *
      10 ^ (places - (natText (n % 10 ^ places)).length) = 10 ^ places := by
    rw [← pow_add]
    congr 1
    omega
  calc Nat.ofDigitChars 10 (natText (n / 10 ^ places) ++ fraction) 0
      = Nat.ofDigitChars 10 (natText (n % 10 ^ places))
          (10 ^ (places - (natText (n % 10 ^ places)).length) * (n / 10 ^ places)) := by
        rw [Nat.ofDigitChars_append, ofDigitChars_natText, Nat.ofDigitChars_append,
          Nat.ofDigitChars_replicate_zero]
    _ = 10 ^ places * (n / 10 ^ places) + n % 10 ^ places := by
        rw [Nat.ofDigitChars_eq_ofDigitChars_zero, ofDigitChars_natText, ← Nat.mul_assoc, hpow]
    _ = n := Nat.div_add_mod n (10 ^ places)

/-- **The text of a magnitude reads back.**  It is digits, a point and digits, and
the fraction they denote is nearest to the magnitude. -/
theorem exists_text_eq (m : Magnitude) : ∃ whole fraction : List Char,
    m.text = whole ++ '.' :: fraction ∧ whole ≠ [] ∧ fraction ≠ [] ∧
      (∀ c ∈ whole, c.isDigit = true) ∧ (∀ c ∈ fraction, c.isDigit = true) ∧
      nearest? (Nat.ofDigitChars 10 (whole ++ fraction) 0) (10 ^ fraction.length) = some m := by
  rcases Bool.eq_false_or_eq_true m.isWhole with hwhole | hwhole
  · refine ⟨natText (m.units / unitsPerOne), ['0'], by simp [text, hwhole], natText_ne_nil _,
      by simp, fun c hc => isDigit_of_mem_natText hc, by simp, ?_⟩
    have hnum : Nat.ofDigitChars 10 (natText (m.units / unitsPerOne) ++ ['0']) 0 =
        10 * (m.units / unitsPerOne) := by
      rw [Nat.ofDigitChars_append, ofDigitChars_natText, Nat.ofDigitChars_cons,
        Nat.ofDigitChars_nil]
      rfl
    have hdvd : m.units / unitsPerOne * unitsPerOne = m.units :=
      Nat.div_mul_cancel (Nat.dvd_of_mod_eq_zero (of_decide_eq_true hwhole))
    rw [hnum]
    refine nearest?_of_reads (by decide) (reads_of_exact (by decide) ?_)
    rw [Nat.mul_assoc, hdvd]
    exact Nat.mul_comm _ _
  · obtain ⟨hplaces, hreads⟩ := reads_shortest m
    obtain ⟨hlen, hnum⟩ := ofDigitChars_positional (n := m.shortest.2) hplaces
    have htext : m.text = positional m.shortest.1 m.shortest.2 := by simp [text, hwhole]
    rw [positional_eq] at htext
    refine ⟨natText (m.shortest.2 / 10 ^ m.shortest.1), _, htext, natText_ne_nil _, ?_,
      fun c hc => isDigit_of_mem_natText hc, ?_, ?_⟩
    · intro hnil
      rw [List.append_eq_nil_iff] at hnil
      exact natText_ne_nil _ hnil.2
    · intro c hc
      rcases List.mem_append.mp hc with hc | hc
      · rw [List.eq_of_mem_replicate hc]
        rfl
      · exact isDigit_of_mem_natText hc
    · rw [hlen, hnum]
      exact nearest?_of_reads (Nat.pow_pos (by decide)) hreads

end Magnitude

/-- A fraction reads as the double whose magnitude is nearest. -/
theorem Double.ofFraction_of_nearest? {num den : Nat} {m : Magnitude} (negative : Bool)
    (h : Magnitude.nearest? num den = some m) :
    ofFraction negative num den = .finite negative m := by
  rw [ofFraction, h, Option.elim_some]

end Casework
