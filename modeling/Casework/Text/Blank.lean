/-!
# Blank characters and trimming

Two classes of blank characters are in play.  The layout of a source text is
made of the four ASCII blanks alone: space, tab, line feed and carriage return.
Trimming, on the other hand, removes every character with the Unicode property
`White_Space`, of which the four are a part.

Texts are worked on as lists of characters; `String` is what trees and callers
hold.

## Main definitions

* `isLayout` — the four blanks that may stand between two tokens.
* `isWhiteSpace` — the characters with the Unicode property `White_Space`.
* `trimEnd`, `trim` — a text without its trailing, or its leading and trailing,
  white space.

## Main results

* `trimEnd_eq_self` — a text that does not end in white space is left alone.
-/

namespace Casework

/-! ### The two classes -/

/-- The blanks that separate tokens: space, tab, line feed, carriage return. -/
def isLayout (c : Char) : Bool :=
  c == ' ' || c == '\t' || c == '\n' || c == '\r'

/-- A line comment runs up to one of these. -/
def isLineEnd (c : Char) : Bool :=
  c == '\n' || c == '\r'

/-- The characters with the Unicode property `White_Space`, as ranges of code
points in increasing order. -/
def whiteSpaceRanges : List (Nat × Nat) :=
  [(0x09, 0x0D), (0x20, 0x20), (0x85, 0x85), (0xA0, 0xA0), (0x1680, 0x1680), (0x2000, 0x200A),
    (0x2028, 0x2029), (0x202F, 0x202F), (0x205F, 0x205F), (0x3000, 0x3000)]

/-- The character lies in one of the given ranges of code points. -/
def inRanges (ranges : List (Nat × Nat)) (c : Char) : Bool :=
  ranges.any fun (first, last) => first ≤ c.toNat && c.toNat ≤ last

/-- The character has the Unicode property `White_Space`. -/
def isWhiteSpace (c : Char) : Bool :=
  inRanges whiteSpaceRanges c

/-- A line ends in layout. -/
theorem isLayout_of_isLineEnd {c : Char} (h : isLineEnd c = true) : isLayout c = true := by
  simp only [isLineEnd, Bool.or_eq_true, beq_iff_eq] at h
  rcases h with rfl | rfl <;> decide

/-! ### Trimming -/

/-- The text without the white space it ends in. -/
def trimEnd (text : List Char) : List Char :=
  (text.reverse.dropWhile isWhiteSpace).reverse

/-- The text without the white space it begins and ends in. -/
def trim (text : List Char) : List Char :=
  trimEnd (text.dropWhile isWhiteSpace)

@[simp] theorem trimEnd_nil : trimEnd [] = [] := rfl

/-- A text whose last character is no white space is left alone. -/
theorem trimEnd_eq_self {text : List Char} {c : Char} (h : isWhiteSpace c = false) :
    trimEnd (text ++ [c]) = text ++ [c] := by
  simp [trimEnd, h]

end Casework
