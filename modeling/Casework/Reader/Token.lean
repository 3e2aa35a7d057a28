import Casework.Reader.Gap

/-!
# Words, names and literals

The tokens of the language that are more than a fixed sequence of characters.
All classes of characters and all comparisons that ignore case are ASCII ones.

## Main definitions

* `Reader.keyword` — a word in any letter case that is not the beginning of a
  longer one.
* `Reader.ident`, `Reader.name` — identifiers and possibly qualified names.
* `Reader.literal` — numbers, strings and the three words that are literals.

## Main results

* `Reader.toInt_ofNat_of_le_maxInt` — an integer that fits does not wrap.
-/

namespace Casework

/-! ### Characters of words -/

/-- The characters of an identifier: ASCII letters, digits and the underscore. -/
def isWordChar (c : Char) : Bool :=
  c.isAlphanum || c == '_'

/-- The characters an identifier begins with. -/
def isWordStart (c : Char) : Bool :=
  c.isAlpha || c == '_'

/-- The characters of a qualified name. -/
def isNameChar (c : Char) : Bool :=
  isWordChar c || c == '\\'

/-- The characters a qualified name begins with. -/
def isNameStart (c : Char) : Bool :=
  isWordStart c || c == '\\'

namespace Reader

/-! ### Words -/

/-- Passes over the letters of the word, in any case. -/
def letters : List Char → Reader Unit
  | [], s => .ok () s
  | _ :: _, [] => .miss []
  | w :: word, c :: s =>
    if c.toLower == w then
      match letters word s with
      | .ok _ r => .ok () r
      | _ => .miss (c :: s)
    else .miss (c :: s)

/-- Reads the given lower-case word, in any letter case, where it is not the
beginning of a longer word.  When it is, the word counts as passed over although
the reader misses. -/
def keyword (word : String) : Reader Unit := do
  letters word.toList
  notNext isWordChar

/-- Reads a word whose first and further characters are of the given classes. -/
def word (first further : Char → Bool) : Reader String := do
  let c ← satisfy first
  let cs ← span further
  pure (String.ofList (c :: cs))

/-- Reads an identifier. -/
def ident : Reader String := word isWordStart isWordChar

/-- Reads a name, possibly qualified. -/
def name : Reader String := word isNameStart isNameChar

/-! ### Numbers -/

/-- Reads one or more digits. -/
def digits : Reader (List Char) := do
  let c ← satisfy Char.isDigit
  let cs ← span Char.isDigit
  pure (c :: cs)

/-- The largest integer that a literal denotes. -/
def maxInt : Nat := Nat.pow 2 63 - 1

/-- The number that a run of digits denotes: an integer, or a double when the
integer would be too large. -/
def natLiteral (n : Nat) : Literal :=
  if n ≤ maxInt then .int (.ofNat n) else .float (.ofFraction false n 1)

/-- An integer that fits is read as it is, without wrapping. -/
theorem toInt_ofNat_of_le_maxInt {n : Nat} (h : n ≤ maxInt) : (Int64.ofNat n).toInt = n :=
  Int64.toInt_ofNat_of_lt (Nat.lt_of_le_of_lt h (by decide))

/-- Reads digits, a point and digits. -/
def float : Reader Literal := do
  let whole ← digits
  char '.'
  let fraction ← digits
  pure (.float
    (.ofFraction false (Nat.ofDigitChars 10 (whole ++ fraction) 0) (Nat.pow 10 fraction.length)))

/-- Reads digits alone. -/
def int : Reader Literal := do
  let whole ← digits
  pure (natLiteral (Nat.ofDigitChars 10 whole 0))

/-! ### Strings -/

/-- The text up to the closing quote, where a backslash takes the next character
with it.  A string that is not closed misses at its end. -/
def rawText (quote : Char) : Reader (List Char)
  | [] => .miss []
  | c :: s =>
    if c == quote then .ok [] (c :: s)
    else if c == '\\' then
      match s with
      | [] => .miss []
      | d :: t =>
        match rawText quote t with
        | .ok raw r => .ok (c :: d :: raw) r
        | .miss r => .miss r
        | .halt e r => .halt e r
    else
      match rawText quote s with
      | .ok raw r => .ok (c :: raw) r
      | .miss r => .miss r
      | .halt e r => .halt e r

/-- Reads a string in the given quotes. -/
def quotedBy (q : Quote) : Reader Literal := do
  char q.mark
  let raw ← rawText q.mark
  char q.mark
  pure (.str q (String.ofList raw))

/-! ### Literals -/

/-- Reads a literal. -/
def literal : Reader Literal :=
  (do keyword "true"; pure (.bool true)) <|>
  (do keyword "false"; pure (.bool false)) <|>
  (do keyword "null"; pure .null) <|>
  float <|> int <|> quotedBy .single <|> quotedBy .double

end Reader

end Casework
