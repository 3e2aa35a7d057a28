import Casework.Printer.Expr

/-!
# Laying out programs

A program is written as lines: four spaces for each level, a brace at the end of
the line that opens it, and every comment on a line of its own before the node
it leads.  A comment that runs over several lines keeps its own line breaks.

## Main definitions

* `Line` — a text and the level it is indented to.
* `Stmt.lines` — the lines of a statement at a given level.
* `Stmt.text`, `Program.text` — the text of a statement or of a program.

## Main results

* `render_append` — texts of adjoining lines adjoin.
* `Stmt.listLines_append` — the lines of adjoining statements adjoin.
-/

namespace Casework

/-! ### Lines -/

/-- A text and the level it is indented to. -/
structure Line where
  level : Nat
  text : List Char

/-- The line with its indentation and a line feed. -/
def Line.render (line : Line) : List Char :=
  List.replicate (4 * line.level) ' ' ++ line.text ++ ['\n']

/-- The lines, one below the other. -/
def render (lines : List Line) : List Char :=
  lines.flatMap Line.render

@[simp] theorem render_nil : render [] = [] := rfl

@[simp] theorem render_cons (line : Line) (lines : List Line) :
    render (line :: lines) = line.render ++ render lines := rfl

/-- Texts of adjoining lines adjoin. -/
@[simp] theorem render_append (a b : List Line) : render (a ++ b) = render a ++ render b := by
  simp [render]

/-- A line for each comment. -/
def commentLines (level : Nat) (comments : List Comment) : List Line :=
  comments.map fun comment => ⟨level, comment.text.toList⟩

@[simp] theorem commentLines_nil (level : Nat) : commentLines level [] = [] := rfl

/-! ### Statements -/

/-- A `match` that stands as a statement has a line for each arm. -/
def matchLines (level : Nat) (subject : Expr) (arms : List (Arm Expr)) : List Line :=
  ⟨level, "match (".toList ++ subject.text ++ ") \x7b".toList⟩ ::
    (arms.flatMap fun arm =>
      commentLines (level + 1) arm.comments ++ [⟨level + 1, arm.text ++ [',']⟩]) ++
    [⟨level, "\x7d;".toList⟩]

/-- The lines of a leaf, without its comments. -/
def Leaf.lines (level : Nat) : Leaf → List Line
  | .echo operands =>
    [⟨level, "echo ".toList ++ separated (operands.map Expr.text) ++ [';']⟩]
  | .expr (.match subject arms) => matchLines level subject arms
  | .expr e => [⟨level, e.text ++ [';']⟩]
  | .return none => [⟨level, "return;".toList⟩]
  | .return (some e) => [⟨level, "return ".toList ++ e.text ++ [';']⟩]
  | .break => [⟨level, "break;".toList⟩]
  | .continue => [⟨level, "continue;".toList⟩]
  | .nop => []

/-- The lines between one clause of a conditional and the next: the closing brace
and the header share a line, unless comments come between them. -/
def headerLines (level : Nat) (comments : List Comment) (header : List Char) : List Line :=
  if comments.isEmpty then [⟨level, '\x7d' :: ' ' :: header⟩]
  else ⟨level, ['\x7d']⟩ :: commentLines level comments ++ [⟨level, header⟩]

/-- The label of a case. -/
def labelText : Option Expr → List Char
  | some key => "case ".toList ++ key.text ++ [':']
  | none => "default:".toList

namespace Stmt

mutual

/-- The lines of a statement and its comments, at the given level. -/
def lines (level : Nat) : Stmt → List Line
  | leaf k l => commentLines level k ++ l.lines level
  | block k body =>
    commentLines level k ++ ⟨level, ['\x7b']⟩ :: listLines (level + 1) body ++ [⟨level, ['\x7d']⟩]
  | «while» k cond body =>
    commentLines level k ++ ⟨level, "while (".toList ++ cond.text ++ ") \x7b".toList⟩ ::
      listLines (level + 1) body ++ [⟨level, ['\x7d']⟩]
  | conditional k cond body elseifs otherwise =>
    commentLines level k ++ ⟨level, "if (".toList ++ cond.text ++ ") \x7b".toList⟩ ::
      listLines (level + 1) body ++ clauseLines level elseifs ++ otherwiseLines level otherwise ++
      [⟨level, ['\x7d']⟩]
  | switch k subject cases =>
    commentLines level k ++ ⟨level, "switch (".toList ++ subject.text ++ ") \x7b".toList⟩ ::
      caseLines (level + 1) cases ++ [⟨level, ['\x7d']⟩]

/-- The lines of one statement after the other. -/
def listLines (level : Nat) : List Stmt → List Line
  | [] => []
  | s :: ss => s.lines level ++ listLines level ss

/-- The lines of the `elseif` clauses, each closing the clause before it. -/
def clauseLines (level : Nat) : List (Clause Stmt) → List Line
  | [] => []
  | ⟨k, cond, body⟩ :: clauses =>
    headerLines level k ("elseif (".toList ++ cond.text ++ ") \x7b".toList) ++
      listLines (level + 1) body ++ clauseLines level clauses

/-- The lines of the `else` clause, closing the clause before it. -/
def otherwiseLines (level : Nat) : Option (Otherwise Stmt) → List Line
  | none => []
  | some ⟨k, body⟩ => headerLines level k "else \x7b".toList ++ listLines (level + 1) body

/-- The lines of the cases of a switch. -/
def caseLines (level : Nat) : List (Case Stmt) → List Line
  | [] => []
  | ⟨k, key, body⟩ :: cases =>
    commentLines level k ++ ⟨level, labelText key⟩ :: listLines (level + 1) body ++
      caseLines level cases

end

/-- The lines of adjoining statements adjoin. -/
@[simp] theorem listLines_append (level : Nat) (a b : List Stmt) :
    listLines level (a ++ b) = listLines level a ++ listLines level b := by
  induction a with
  | nil => rfl
  | cons s ss ih => simp [listLines, ih]

/-- The text of a statement and its comments. -/
def text (s : Stmt) : String :=
  String.ofList (render (s.lines 0))

end Stmt

/-! ### Programs -/

/-- The text of a program: the opening tag and an empty line, if it has the tag,
and its statements. -/
def Program.chars (p : Program) : List Char :=
  (if p.openTag then "<?php\n\n".toList else []) ++ render (Stmt.listLines 0 p.stmts)

/-- The text of a program as a string. -/
def Program.text (p : Program) : String :=
  String.ofList p.chars

end Casework
