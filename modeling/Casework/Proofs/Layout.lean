import Casework.Proofs.Settle

/-!
# Printed statements token by token

The printer thinks in lines, the reader in tokens and gaps.  Here the lines of a
statement are taken apart the reader's way: the comments that lead it, the
indentation, the code from its first token to its last, and a line feed.  Between
two clauses of a conditional stands a bridge, which is a space or the lines of
the comments.

## Main definitions

* `Stmt.code` — a statement from its first token to its last.
* `clausesCode` — what follows the first branch of a conditional.

## Main results

* `Stmt.render_lines` — the lines of a statement are its comments, the indentation
  and its code.
* `isGap_bridge` — what stands between two clauses is a gap with the comments.
-/

namespace Casework

/-- The indentation of a line. -/
def indent (level : Nat) : List Char := List.replicate (4 * level) ' '

theorem isGap_indent (level : Nat) : IsGap (indent level) [] := isGap_replicate (4 * level)

/-- Lines between braces, where the opening brace ends a line of the given level. -/
def bracedText (level : Nat) (lines : List Line) : List Char :=
  '\x7b' :: '\n' :: (render lines ++ (indent level ++ ['\x7d']))

/-- A word and a parenthesised expression, up to the brace of a body. -/
def headText (word : String) (e : Expr) : List Char :=
  word.toList ++ ' ' :: '(' :: (e.text ++ [')', ' '])

/-- What stands between the brace of one clause and the word of the next. -/
def bridge (level : Nat) (k : List Comment) : List Char :=
  if k.isEmpty then [' '] else '\n' :: (render (commentLines level k) ++ indent level)

/-- A bridge is a gap with the comments. -/
theorem isGap_bridge (level : Nat) {k : List Comment} (hk : k.all Comment.wellFormed = true) :
    IsGap (bridge level k) k := by
  unfold bridge
  split
  · next h =>
    rw [List.isEmpty_iff] at h
    rw [h]
    exact isGap_layout rfl
  · have hlines := isGap_commentLines level (List.all_eq_true.mp hk)
    have hgap := (hlines.append (isGap_indent level)).cons_layout (c := '\n') rfl
    rwa [List.append_nil] at hgap

/-! ### Code -/

/-- A leaf from its first token to its last. -/
def Leaf.code : Leaf → List Char
  | .echo operands => "echo".toList ++ ' ' :: (separated (operands.map Expr.text) ++ [';'])
  | .expr e => e.text ++ [';']
  | .return none => "return".toList ++ [';']
  | .return (some e) => "return".toList ++ ' ' :: (e.text ++ [';'])
  | .break => "break".toList ++ [';']
  | .continue => "continue".toList ++ [';']
  | .nop => []

theorem Leaf.code_echo (operands : List Expr) : (Leaf.echo operands).code =
    "echo".toList ++ ' ' :: (separated (operands.map Expr.text) ++ [';']) := rfl

theorem Leaf.code_expr (e : Expr) : (Leaf.expr e).code = e.text ++ [';'] := rfl

theorem Leaf.code_return_none : (Leaf.return none).code = "return".toList ++ [';'] := rfl

theorem Leaf.code_return_some (e : Expr) :
    (Leaf.return (some e)).code = "return".toList ++ ' ' :: (e.text ++ [';']) := rfl

theorem Leaf.code_break : Leaf.break.code = "break".toList ++ [';'] := rfl

theorem Leaf.code_continue : Leaf.continue.code = "continue".toList ++ [';'] := rfl

/-- The leaf begins with a word of its own. -/
def Leaf.isWorded : Leaf → Bool
  | .expr _ | .nop => false
  | _ => true

/-- What follows the brace of the first branch of a conditional. -/
def clausesCode (level : Nat) : List (Clause Stmt) → Option (Otherwise Stmt) → List Char
  | [], none => []
  | [], some ⟨k, body⟩ =>
    bridge level k ++ ("else".toList ++ ' ' :: bracedText level (Stmt.listLines (level + 1) body))
  | ⟨k, cond, body⟩ :: clauses, otherwise =>
    bridge level k ++ (headText "elseif" cond ++
      (bracedText level (Stmt.listLines (level + 1) body) ++ clausesCode level clauses otherwise))

/-- A statement from its first token to its last, without the comments that lead it. -/
def Stmt.code (level : Nat) : Stmt → List Char
  | leaf _ l => l.code
  | block _ body => bracedText level (listLines (level + 1) body)
  | «while» _ cond body => headText "while" cond ++ bracedText level (listLines (level + 1) body)
  | conditional _ cond body elseifs otherwise =>
    headText "if" cond ++
      (bracedText level (listLines (level + 1) body) ++ clausesCode level elseifs otherwise)
  | switch _ subject cases =>
    headText "switch" subject ++ bracedText level (caseLines (level + 1) cases)

/-! ### Lines are comments and code -/

@[simp] theorem Line.render_mk (level : Nat) (text : List Char) :
    (Line.mk level text).render = indent level ++ (text ++ ['\n']) := by
  simp [Line.render, indent]

theorem render_headerLines (level : Nat) (k : List Comment) (header : List Char) :
    render (headerLines level k header) =
      indent level ++ '\x7d' :: (bridge level k ++ (header ++ ['\n'])) := by
  unfold headerLines bridge
  split
  · simp
  · simp

/-- The lines behind the first branch of a conditional begin with its closing brace. -/
theorem render_clauseLines (level : Nat) (otherwise : Option (Otherwise Stmt))
    (clauses : List (Clause Stmt)) :
    render (Stmt.clauseLines level clauses ++ Stmt.otherwiseLines level otherwise ++
        [⟨level, ['\x7d']⟩]) =
      indent level ++ '\x7d' :: (clausesCode level clauses otherwise ++ ['\n']) := by
  induction clauses with
  | nil =>
    cases otherwise with
    | none => simp [Stmt.clauseLines, Stmt.otherwiseLines, clausesCode]
    | some o =>
      have helse : "else \x7b".toList = "else".toList ++ [' ', '\x7b'] := rfl
      simp [Stmt.clauseLines, Stmt.otherwiseLines, clausesCode, render_headerLines,
        bracedText, helse]
  | cons c clauses ih =>
    obtain ⟨k, cond, body⟩ := c
    have hword : "elseif (".toList = "elseif".toList ++ [' ', '('] := rfl
    have hopen : ") \x7b".toList = [')', ' ', '\x7b'] := rfl
    simp only [render_append, render_cons, render_nil, Line.render_mk, List.append_assoc,
      List.append_nil, List.cons_append, List.nil_append] at ih
    simp [Stmt.clauseLines, clausesCode, render_headerLines, bracedText, headText, hword, hopen, ih]

/-- The leaf prints on one line: it is neither empty nor a `match`. -/
def Leaf.isLine : Leaf → Bool
  | .nop | .expr (.match _ _) => false
  | _ => true

/-- A leaf on one line prints as its code. -/
theorem Leaf.lines_eq_code (level : Nat) {l : Leaf} (hl : l.isLine = true) :
    l.lines level = [⟨level, l.code⟩] := by
  cases l with
  | echo operands =>
    show [Line.mk level ("echo".toList ++ [' '] ++ separated _ ++ [';'])] = _
    simp [Leaf.code_echo]
  | expr e =>
    cases e with
    | «match» _ _ => cases hl
    | _ => rfl
  | «return» value =>
    cases value with
    | none => rfl
    | some e =>
      show [Line.mk level ("return".toList ++ [' '] ++ e.text ++ [';'])] = _
      simp [Leaf.code_return_some]
  | «break» => rfl
  | «continue» => rfl
  | nop => cases hl

namespace Stmt

/-- The statement prints as one text: it is neither empty nor a `match`. -/
def isCode : Stmt → Bool
  | leaf _ l => l.isLine
  | _ => true

/-- The lines of a statement are its comments, the indentation and its code. -/
theorem render_lines (level : Nat) {s : Stmt} (hs : s.isCode = true) :
    render (s.lines level) =
      render (commentLines level s.comments) ++ (indent level ++ (s.code level ++ ['\n'])) := by
  have hopen : ") \x7b".toList = [')', ' ', '\x7b'] := rfl
  cases s with
  | leaf k l => simp [lines, Leaf.lines_eq_code level hs, code, comments]
  | block k body => simp [lines, code, comments, bracedText]
  | «while» k cond body =>
    have hword : "while (".toList = "while".toList ++ [' ', '('] := rfl
    simp [lines, code, comments, bracedText, headText, hword, hopen]
  | conditional k cond body elseifs otherwise =>
    have hword : "if (".toList = "if".toList ++ [' ', '('] := rfl
    have hclauses := render_clauseLines level otherwise elseifs
    simp only [render_append, render_cons, render_nil, Line.render_mk, List.append_assoc,
      List.append_nil, List.cons_append, List.nil_append] at hclauses
    simp [lines, code, comments, bracedText, headText, hword, hopen, hclauses]
  | switch k subject cases =>
    have hword : "switch (".toList = "switch".toList ++ [' ', '('] := rfl
    simp [lines, code, comments, bracedText, headText, hword, hopen]

/-- An empty statement is written as its comments. -/
theorem render_lines_nop (level : Nat) {s : Stmt} (hs : s.isNop = true) :
    render (s.lines level) = render (commentLines level s.comments) := by
  rw [eq_leaf_of_isNop hs]
  show render (commentLines level s.comments ++ []) = _
  rw [List.append_nil]
  rfl

end Stmt

end Casework
