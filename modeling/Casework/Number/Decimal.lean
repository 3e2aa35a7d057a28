import Casework.Number.Double

/-!
# Decimal text of doubles

How a double is written in decimal.  A whole number shows all its digits and one
zero behind the point.  Any other finite number shows the fewest digits that
read back to it, without an exponent: the digits behind the point are added one
at a time until one of the two decimals next to the number lies in its rounding
interval, the fractions that read back to it.

## Main definitions

* `Magnitude.reads` — the fraction `num / den` lies in the rounding interval.
* `Magnitude.shortest` — the shortest decimal of a number that is not whole.
* `Double.text` — the decimal text of a double.
-/

namespace Casework

/-- The decimal digits of a natural number. -/
def natText (n : Nat) : List Char := Nat.toDigits 10 n

/-- The decimal digits of an integer, behind a minus sign when it is negative. -/
def intText (n : Int) : List Char :=
  if n < 0 then '-' :: natText n.natAbs else natText n.natAbs

namespace Magnitude

/-! ### The rounding interval

The neighbour below lies half as far away when the significand is the least one
of its scale.  To keep whole numbers, the ends of the interval are given in
quarters of a least unit. -/

/-- The lower end of the rounding interval, in quarters of a least unit. -/
def lowerEnd (m : Magnitude) : Nat :=
  4 * m.units -
    (if m.significand = Nat.pow 2 52 ∧ 0 < m.scale then 1 else 2) * Nat.pow 2 m.scale

/-- The upper end of the rounding interval, in quarters of a least unit. -/
def upperEnd (m : Magnitude) : Nat :=
  4 * m.units + 2 * Nat.pow 2 m.scale

/-- The fraction `num / den` rounds to the magnitude: it lies strictly between
the ends of the interval, or on one of them when the significand is even. -/
def reads (m : Magnitude) (num den : Nat) : Bool :=
  let point := 4 * num * unitsPerOne
  if m.significand % 2 = 0 then m.lowerEnd * den ≤ point && point ≤ m.upperEnd * den
  else m.lowerEnd * den < point && point < m.upperEnd * den

/-! ### The shortest decimal -/

/-- The number with the given count of digits behind the point that is next to
the magnitude and reads back to it, as a multiple of the last place.  Of two
such numbers the nearer is taken, and the larger when both are equally near. -/
def decimalAt? (m : Magnitude) (places : Nat) : Option Nat :=
  let scaled := m.units * Nat.pow 10 places
  let below := scaled / unitsPerOne
  let up := 2 * (scaled % unitsPerOne) ≥ unitsPerOne
  match m.reads below (Nat.pow 10 places), m.reads (below + 1) (Nat.pow 10 places) with
  | true, true => some (if up then below + 1 else below)
  | true, false => some below
  | false, true => some (below + 1)
  | false, false => none

/-- The first count of places from `places` on, within the next `fuel` ones, at
which a decimal reads back, and that decimal. -/
def shortestFrom (m : Magnitude) : Nat → Nat → Nat × Nat
  | 0, places => (places, m.units * Nat.pow 10 places / unitsPerOne)
  | fuel + 1, places =>
    match m.decimalAt? places with
    | some n => (places, n)
    | none => shortestFrom m fuel (places + 1)

/-- The shortest decimal of a number that is not whole: its count of places and
its multiple of the last place.  With 1074 places every magnitude is exact. -/
def shortest (m : Magnitude) : Nat × Nat :=
  m.shortestFrom 1074 1

/-- The digits of `n / 10 ^ places`, with at least one before the point. -/
def positional (places n : Nat) : List Char :=
  let fraction := natText (n % Nat.pow 10 places)
  natText (n / Nat.pow 10 places) ++
    '.' :: (List.replicate (places - fraction.length) '0' ++ fraction)

/-- The number is whole. -/
def isWhole (m : Magnitude) : Bool :=
  m.units % unitsPerOne = 0

/-- The decimal text of a magnitude. -/
def text (m : Magnitude) : List Char :=
  if m.isWhole then natText (m.units / unitsPerOne) ++ ['.', '0']
  else positional m.shortest.1 m.shortest.2

end Magnitude

/-! ### Doubles -/

/-- The decimal text of a double. -/
def Double.text : Double → List Char
  | .finite negative m => (if negative then ['-'] else []) ++ m.text
  | .infinite negative => (if negative then ['-'] else []) ++ ['i', 'n', 'f']
  | .nan => ['N', 'a', 'N']

end Casework
