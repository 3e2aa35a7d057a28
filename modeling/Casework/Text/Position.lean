/-!
# Positions in a source text

A position is reported in three ways at once: as a count of UTF-8 bytes from the
start, and as a line and a column, both counted from one.  A line ends with a
line feed and with nothing else; a column counts characters, not bytes.

What a reader leaves is known by its size, so a place is first a number of bytes.
Line and column are those of the characters that fit into these bytes: a place in
the midst of a character counts as the place before it, and a place behind the end
as the end.

## Main definitions

* `byteSize` — the number of UTF-8 bytes of a text.
* `firstBytes` — the characters that fit into a number of bytes.
* `Position` — byte offset, line and column.
* `Position.after` — where one stands after reading a text from the start.
* `Position.ofOffset` — the place so many bytes behind the start.
* `Position.before` — where one stands when a given rest is left.

## Main results

* `firstBytes_append` — the bytes of a text are filled by its characters.
* `Position.after_append` — reading on from where one stands.
* `Position.offset_after` — the offset is the size of the text read.
* `Position.ofOffset_append` — the place behind the bytes of a text is the place
  behind the text.
-/

namespace Casework

/-! ### Bytes -/

/-- The number of UTF-8 bytes of the text. -/
def byteSize : List Char → Nat
  | [] => 0
  | c :: text => c.utf8Size + byteSize text

@[simp] theorem byteSize_nil : byteSize [] = 0 := rfl

@[simp] theorem byteSize_cons (c : Char) (text : List Char) :
    byteSize (c :: text) = c.utf8Size + byteSize text := rfl

@[simp] theorem byteSize_append (a b : List Char) :
    byteSize (a ++ b) = byteSize a + byteSize b := by
  induction a with
  | nil => simp
  | cons c a ih => rw [List.cons_append, byteSize_cons, byteSize_cons, ih, Nat.add_assoc]

/-- The bytes of a text are those of the string it makes. -/
theorem utf8ByteSize_ofList (text : List Char) :
    (String.ofList text).utf8ByteSize = byteSize text := by
  induction text with
  | nil => simp
  | cons c text ih =>
    rw [String.ofList_cons, String.utf8ByteSize_append, String.utf8ByteSize_singleton, ih,
      byteSize_cons]

/-- The characters from the start of the text that fit into the given number of
bytes. -/
def firstBytes : Nat → List Char → List Char
  | _, [] => []
  | n, c :: text => if c.utf8Size ≤ n then c :: firstBytes (n - c.utf8Size) text else []

/-- The bytes of a text are filled by its characters. -/
theorem firstBytes_append (a b : List Char) : firstBytes (byteSize a) (a ++ b) = a := by
  induction a with
  | nil =>
    cases b with
    | nil => rfl
    | cons c b =>
      have hc := c.utf8Size_pos
      rw [List.nil_append, firstBytes, byteSize_nil, if_neg (by omega)]
  | cons c a ih =>
    rw [List.cons_append, firstBytes, byteSize_cons, if_pos (Nat.le_add_right _ _),
      Nat.add_sub_cancel_left, ih]

/-! ### Positions -/

/-- A place in a source text. -/
structure Position where
  /-- UTF-8 bytes before the place. -/
  offset : Nat
  /-- Line feeds before the place, plus one. -/
  line : Nat
  /-- Characters since the last line feed, plus one. -/
  column : Nat
  deriving DecidableEq

namespace Position

/-- The start of a text. -/
def start : Position := ⟨0, 1, 1⟩

/-- The place behind one more character. -/
def advance (p : Position) (c : Char) : Position :=
  if c == '\n' then ⟨p.offset + c.utf8Size, p.line + 1, 1⟩
  else ⟨p.offset + c.utf8Size, p.line, p.column + 1⟩

/-- The place behind the given text, read from its start. -/
def after (text : List Char) : Position :=
  text.foldl advance start

/-- The place so many bytes behind the start of the source. -/
def ofOffset (source : List Char) (offset : Nat) : Position :=
  { after (firstBytes offset source) with offset := offset }

/-- The place in the source at which only the given rest is left. -/
def before (source rest : List Char) : Position :=
  ofOffset source (byteSize source - byteSize rest)

@[simp] theorem after_nil : after [] = start := rfl

/-- Reading on from where one stands. -/
theorem after_append (a b : List Char) : after (a ++ b) = b.foldl advance (after a) := by
  simp [after, List.foldl_append]

/-- One more character moves the offset by its bytes. -/
@[simp] theorem offset_advance (p : Position) (c : Char) :
    (p.advance c).offset = p.offset + c.utf8Size := by
  unfold advance
  split <;> rfl

/-- The offset is the number of bytes of the text read. -/
theorem offset_after (text : List Char) : (after text).offset = byteSize text := by
  have go : ∀ (s : List Char) (p : Position),
      (s.foldl advance p).offset = p.offset + byteSize s := by
    intro s
    induction s with
    | nil => intro p; rfl
    | cons c s ih =>
      intro p
      rw [List.foldl_cons, ih, offset_advance, byteSize_cons, Nat.add_assoc]
  simpa [after, start] using go text start

/-- The place behind the bytes of a text is the place behind the text. -/
theorem ofOffset_append (a b : List Char) : ofOffset (a ++ b) (byteSize a) = after a := by
  rw [ofOffset, firstBytes_append, ← offset_after]

/-- What is left is behind what was read. -/
theorem before_append (a rest : List Char) : before (a ++ rest) rest = after a := by
  rw [before, byteSize_append, Nat.add_sub_cancel, ofOffset_append]

end Position

end Casework
