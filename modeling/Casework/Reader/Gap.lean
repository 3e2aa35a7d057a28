import Casework.Reader.Reply
import Casework.Text.Blank
import Casework.Tree.Literal

/-!
# Gaps

Between two tokens may stand a gap: layout and comments in any order.  A comment
is a text between `/*` and the first `*/` behind it, or runs from `//` or `#` to
the end of the line; `#[` opens no comment.  A `/*` that is never closed belongs
to no gap.

Reading a gap never fails.  The comments it holds are kept, without the white
space at their ends.

## Main definitions

* `commentAt?` — the comment that a text begins with.
* `gapFrom` — the comments of a gap and what stands behind it.
* `Reader.comments`, `Reader.gap` — reading a gap with or without its comments.

## Main results

* `gapFrom_eq_drop` — passing over a comment is dropping its characters.
* `gapFrom_nil`, `gapFrom_layout`, `gapFrom_comment`, `gapFrom_token` — what a
  gap does at each kind of next character.
-/

namespace Casework

/-! ### One comment -/

/-- The text up to and including the first `*/`. -/
def throughClose? : List Char → Option (List Char)
  | [] => none
  | '*' :: '/' :: _ => some ['*', '/']
  | c :: s => (throughClose? s).map (c :: ·)

/-- The text of the comment that stands next. -/
def commentAt? : List Char → Option (List Char)
  | '/' :: '*' :: s => (throughClose? s).map fun t => '/' :: '*' :: t
  | '/' :: '/' :: s => some ('/' :: '/' :: s.takeWhile (!isLineEnd ·))
  | '#' :: '[' :: _ => none
  | '#' :: s => some ('#' :: s.takeWhile (!isLineEnd ·))
  | _ => none

/-- The comment with the given text, less the white space at its end. -/
def Comment.ofChars (text : List Char) : Comment :=
  ⟨String.ofList (trimEnd text)⟩

/-! ### A gap -/

/-- The comments of the gap that stands next, and the text behind it.  The first
`owed` characters belong to a comment that has been taken already. -/
def gapFrom : Nat → List Char → List Comment × List Char
  | _, [] => ([], [])
  | owed + 1, _ :: s => gapFrom owed s
  | 0, c :: s =>
    if isLayout c then gapFrom 0 s
    else
      match commentAt? (c :: s) with
      | some text =>
        let (others, rest) := gapFrom (text.length - 1) s
        (.ofChars text :: others, rest)
      | none => ([], c :: s)

@[simp] theorem gapFrom_nil (owed : Nat) : gapFrom owed [] = ([], []) := by
  cases owed <;> rfl

/-- Passing over a comment is dropping its characters. -/
theorem gapFrom_eq_drop (owed : Nat) (s : List Char) :
    gapFrom owed s = gapFrom 0 (s.drop owed) := by
  induction owed generalizing s with
  | zero => rfl
  | succ n ih =>
    cases s with
    | nil => simp
    | cons c s => simp [gapFrom, ih s]

/-- A gap passes over layout. -/
theorem gapFrom_layout {c : Char} (h : isLayout c = true) (s : List Char) :
    gapFrom 0 (c :: s) = gapFrom 0 s := by
  simp [gapFrom, h]

/-- A gap takes a comment and goes on behind it. -/
theorem gapFrom_comment {c : Char} {s text : List Char} (hc : isLayout c = false)
    (h : commentAt? (c :: s) = some text) :
    gapFrom 0 (c :: s) =
      (.ofChars text :: (gapFrom 0 (s.drop (text.length - 1))).1,
        (gapFrom 0 (s.drop (text.length - 1))).2) := by
  simp [gapFrom, hc, h, gapFrom_eq_drop (text.length - 1) s]

/-- A gap ends at anything that is neither layout nor a comment. -/
theorem gapFrom_token {c : Char} {s : List Char} (hc : isLayout c = false)
    (h : commentAt? (c :: s) = none) : gapFrom 0 (c :: s) = ([], c :: s) := by
  simp [gapFrom, hc, h]

namespace Reader

/-- Reads a gap and gives its comments. -/
def comments : Reader (List Comment) := fun s =>
  let g := gapFrom 0 s
  .ok g.1 g.2

/-- Reads a gap; comments within an expression are dropped. -/
def gap : Reader Unit := fun s =>
  .ok () (gapFrom 0 s).2

end Reader

end Casework
