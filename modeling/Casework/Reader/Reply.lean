/-!
# Readers and their replies

A reader takes the text that is left to read and replies in one of three ways.
It reads a value and leaves a rest; it misses, so that another reader may be
tried in its place; or it halts, because what stands before made it certain that
nothing else fits.  A miss and a halt also say how far the reader had come: that
place is where a failure is reported.

Trying another reader starts over at the same place, so a miss costs nothing.  A
sequence that misses in the middle does not go back by itself.

## Main definitions

* `Expected` — what a halt may ask for.
* `Reply` — the three outcomes.
* `Reader` — readers, with `pure`, `bind` and the `Monad` they form.
* `Reader.orElse`, `Reader.optional`, `Reader.many`, `Reader.sepBy1` — choice and
  repetition.
* `Reader.commit`, `Reader.require` — turning a miss into a halt.

## Main results

* `Reader.many_succ`, `Reader.bind_apply` and their like — one equation for each
  combinator on a given text.
-/

namespace Casework

/-- What a reader that halts asks for. -/
inductive Expected where
  | semicolon
  | closingBrace
  | openingBrace
  | colon
  | condition
  | caseLabel
  deriving DecidableEq

/-- The name of what is asked for, as a failure shows it. -/
def Expected.description : Expected → String
  | .semicolon => "`;`"
  | .closingBrace => "`\x7d`"
  | .openingBrace => "`\x7b`"
  | .colon => "`:`"
  | .condition => "parenthesized condition"
  | .caseLabel => "`case` or `default`"

/-- The outcome of a reader, with the text it leaves or had come to. -/
inductive Reply (α : Type) where
  /-- A value was read. -/
  | ok (value : α) (rest : List Char)
  /-- Nothing was read; another reader may be tried. -/
  | miss (rest : List Char)
  /-- Nothing was read and nothing else may be tried. -/
  | halt (expected : Option Expected) (rest : List Char)
  deriving DecidableEq

/-- A reader of values from the text that is left. -/
def Reader (α : Type) : Type := List Char → Reply α

namespace Reader

variable {α β : Type}

/-! ### Sequence -/

/-- Reads nothing and gives the value. -/
protected def pure (a : α) : Reader α := fun s => .ok a s

/-- Reads a value and goes on with the reader it selects. -/
protected def bind (p : Reader α) (f : α → Reader β) : Reader β := fun s =>
  match p s with
  | .ok a r => f a r
  | .miss r => .miss r
  | .halt e r => .halt e r

instance : Monad Reader where
  pure := Reader.pure
  bind := Reader.bind

theorem bind_apply (p : Reader α) (f : α → Reader β) (s : List Char) :
    (p >>= f) s = match p s with
      | .ok a r => f a r
      | .miss r => .miss r
      | .halt e r => .halt e r := rfl

/-- A reader that never fits. -/
def fail : Reader α := fun s => .miss s

/-! ### Choice -/

/-- Tries the first reader and, when it misses, the second one at the same place.
The second reader is only built when it is needed. -/
def orElse (p : Reader α) (q : Unit → Reader α) : Reader α := fun s =>
  match p s with
  | .miss _ => q () s
  | reply => reply

instance : OrElse (Reader α) := ⟨orElse⟩

theorem orElse_apply (p q : Reader α) (s : List Char) :
    (p <|> q) s = match p s with
      | .miss _ => q s
      | reply => reply := rfl

/-- Tries the reader and reads nothing when it misses. -/
def optional (p : Reader α) : Reader (Option α) := fun s =>
  match p s with
  | .ok a r => .ok (some a) r
  | .miss _ => .ok none s
  | .halt e r => .halt e r

/-! ### Repetition

The bound on the number of rounds is at least the length of the text plus one at
every use; since each round reads at least one character, it is never reached. -/

/-- Reads as often as the reader fits. -/
def many (p : Reader α) : Nat → Reader (List α)
  | 0, s => .miss s
  | n + 1, s =>
    match p s with
    | .ok a r =>
      match many p n r with
      | .ok as t => .ok (a :: as) t
      | .miss t => .miss t
      | .halt e t => .halt e t
    | .miss _ => .ok [] s
    | .halt e r => .halt e r

/-- Reads one value, and further ones as long as a separator and a value fit. -/
def sepBy1 (p : Reader α) (separator : Reader Unit) (fuel : Nat) : Reader (List α) := do
  let first ← p
  let others ← many (do separator; p) fuel
  pure (first :: others)

@[simp] theorem many_zero (p : Reader α) (s : List Char) : many p 0 s = .miss s := rfl

theorem many_succ (p : Reader α) (n : Nat) (s : List Char) :
    many p (n + 1) s = match p s with
      | .ok a r =>
        match many p n r with
        | .ok as t => .ok (a :: as) t
        | .miss t => .miss t
        | .halt e t => .halt e t
      | .miss _ => .ok [] s
      | .halt e r => .halt e r := rfl

/-! ### Certainty -/

/-- The reader has to fit: a miss becomes a halt. -/
def commit (p : Reader α) : Reader α := fun s =>
  match p s with
  | .miss r => .halt none r
  | reply => reply

/-- The reader has to fit, and a failure names what is asked for. -/
def require (expected : Expected) (p : Reader α) : Reader α := fun s =>
  match p s with
  | .ok a r => .ok a r
  | .miss r => .halt (some expected) r
  | .halt e r => .halt (e.or (some expected)) r

/-! ### Single characters -/

/-- Reads one character of the given class. -/
def satisfy (accepts : Char → Bool) : Reader Char
  | [] => .miss []
  | c :: s => if accepts c then .ok c s else .miss (c :: s)

/-- Reads the given character. -/
def char (c : Char) : Reader Unit
  | [] => .miss []
  | d :: s => if d == c then .ok () s else .miss (d :: s)

/-- Reads the given text. -/
def token (text : List Char) : Reader Unit := fun s =>
  if text.isPrefixOf s then .ok () (s.drop text.length) else .miss s

/-- Fits where the next character is not of the given class, and reads nothing. -/
def notNext (refuses : Char → Bool) : Reader Unit
  | [] => .ok () []
  | c :: s => if refuses c then .miss (c :: s) else .ok () (c :: s)

/-- Reads all characters of the given class that stand next. -/
def span (accepts : Char → Bool) : Reader (List Char) := fun s =>
  .ok (s.takeWhile accepts) (s.dropWhile accepts)

end Reader

end Casework
