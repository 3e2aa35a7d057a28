import Casework.Reader.Expression
import Casework.Tree.Stmt

/-!
# Reading statements

A list of statements is read up to a place where it may stop: the end of the
text, a closing brace, and within a switch also the label of the next case.
Comments before a statement lead it.  Comments before a closing brace or the end
lead nothing and become an empty statement; those before a label are left to the
case behind it.

Like the levels of an expression, the kinds of statements are functions of the
reader for nested statements, and `Reader.statement` ties the knot.

## Main definitions

* `Stop` — where a list of statements may stop.
* `Reader.statements` — a list of statements.
* `Reader.body` — the body of a control structure.
* `Reader.clauses`, `Reader.cases` — the parts of conditionals and switches.
* `Reader.statement` — a statement behind the comments that lead it.
-/

namespace Casework

/-! ### Where a list of statements stops -/

/-- Where a list of statements may stop before the end of the text. -/
inductive Stop where
  /-- Before a closing brace. -/
  | brace
  /-- Before a closing brace or the label of a case. -/
  | label
  deriving DecidableEq

/-- A reader fits at the given text. -/
def Reader.fits {α : Type} (p : Reader α) (s : List Char) : Bool :=
  match p s with
  | .ok _ _ => true
  | _ => false

/-- The label of a case stands next. -/
def labelAhead (s : List Char) : Bool :=
  (Reader.keyword "case").fits s || (Reader.keyword "default").fits s

/-- A closing brace stands next. -/
def braceAhead : List Char → Bool
  | c :: _ => c == '\x7d'
  | [] => false

/-- The empty statement that carries comments which lead nothing, if there are
any. -/
def dangling (comments : List Comment) : List Stmt :=
  if comments.isEmpty then [] else [.leaf comments .nop]

namespace Reader

/-- A reader for statements, given the comments that lead it. -/
abbrev Led := List Comment → Reader Stmt

/-! ### Lists and bodies -/

/-- Reads statements up to a place where the list stops. -/
def statements (nested : Led) (stop : Stop) : Nat → Reader (List Stmt)
  | 0, s => .miss s
  | n + 1, s =>
    let g := gapFrom 0 s
    if g.2.isEmpty || braceAhead g.2 then .ok (dangling g.1) g.2
    else if stop == .label && labelAhead g.2 then .ok [] s
    else
      match nested g.1 g.2 with
      | .ok stmt r =>
        match statements nested stop n r with
        | .ok stmts t => .ok (stmt :: stmts) t
        | .miss t => .miss t
        | .halt e t => .halt e t
      | .miss r => .miss r
      | .halt e r => .halt e r

/-- Reads statements between braces. -/
def braced (fuel : Nat) (nested : Led) : Reader (List Stmt) := do
  char '\x7b'
  let stmts ← statements nested .brace fuel
  require .closingBrace (char '\x7d')
  pure stmts

/-- Reads the body of a control structure: statements between braces, or a single
statement.  Comments before either lead nothing and are dropped. -/
def body (fuel : Nat) (nested : Led) : Reader (List Stmt) := do
  gap
  fun s =>
    match s with
    | '\x7b' :: _ => braced fuel nested s
    | _ => (do return [← nested []] : Reader (List Stmt)) s

/-- Reads the end of a simple statement. -/
def semicolon : Reader Unit := do
  gap
  require .semicolon (char ';')

/-- Reads the condition of a control structure, which has to follow. -/
def condition (fuel : Nat) : Reader Expr :=
  require .condition do
    gap
    within '(' ')' (expr fuel)

/-! ### Conditionals -/

/-- Reads the clauses behind the first branch of a conditional.  Comments lead
the clause they stand before and are given back when none follows.

The word `elseif` counts as passed over even when a longer word begins with it,
so the word `else` is looked for behind it. -/
def clauses (fuel : Nat) (nested : Led) :
    Nat → Reader (List (Clause Stmt) × Option (Otherwise Stmt))
  | 0, s => .miss s
  | n + 1, s =>
    let g := gapFrom 0 s
    match keyword "elseif" g.2 with
    | .ok _ r =>
      (do
        let cond ← condition fuel
        let stmts ← commit (body fuel nested)
        let (others, otherwise) ← clauses fuel nested n
        pure (⟨g.1, cond, stmts⟩ :: others, otherwise) : Reader _) r
    | .miss r | .halt _ r =>
      match keyword "else" r with
      | .ok _ t =>
        (do
          let stmts ← commit (body fuel nested)
          pure ([], some ⟨g.1, stmts⟩) : Reader _) t
      | .miss _ | .halt _ _ => .ok ([], none) s

/-- Reads a conditional. -/
def conditional (fuel : Nat) (nested : Led) (k : List Comment) : Reader Stmt := do
  keyword "if"
  let cond ← condition fuel
  let stmts ← commit (body fuel nested)
  let (elseifs, otherwise) ← clauses fuel nested fuel
  pure (.conditional k cond stmts elseifs otherwise)

/-! ### Loops and switches -/

/-- Reads a loop. -/
def loop (fuel : Nat) (nested : Led) (k : List Comment) : Reader Stmt := do
  keyword "while"
  let cond ← condition fuel
  let stmts ← commit (body fuel nested)
  pure (.while k cond stmts)

/-- Reads the label of a case up to its colon, for which a semicolon may stand. -/
def label (fuel : Nat) : Reader (Option Expr) := do
  let key ← require .caseLabel
    ((do keyword "case"; gap; return some (← expr fuel)) <|> (do keyword "default"; return none))
  require .colon do
    gap
    let _ ← satisfy fun c => c == ':' || c == ';'
  pure key

/-- Reads the cases of a switch and its closing brace.  Comments before the brace
of a switch without cases lead nothing and are dropped. -/
def cases (fuel : Nat) (nested : Led) : Nat → Reader (List (Case Stmt))
  | 0, s => .miss s
  | n + 1, s =>
    let g := gapFrom 0 s
    if braceAhead g.2 then .ok [] g.2.tail
    else
      (do
        let key ← label fuel
        let stmts ← statements nested .label fuel
        let others ← cases fuel nested n
        pure (⟨g.1, key, stmts⟩ :: others) : Reader _) g.2

/-- Reads a switch. -/
def switch (fuel : Nat) (nested : Led) (k : List Comment) : Reader Stmt := do
  keyword "switch"
  let subject ← condition fuel
  require .openingBrace do
    gap
    char '\x7b'
  let cs ← cases fuel nested fuel
  pure (.switch k subject cs)

/-! ### Simple statements -/

/-- Reads an `echo` with at least one operand. -/
def echo (fuel : Nat) : Reader Leaf := do
  keyword "echo"
  let operands ← commit (sepBy1 (do gap; expr fuel) (do gap; char ',') fuel)
  semicolon
  pure (.echo operands)

/-- Reads a `return` with or without a value. -/
def ret (fuel : Nat) : Reader Leaf := do
  keyword "return"
  let value ← optional do gap; expr fuel
  semicolon
  pure (.return value)

/-- Reads one of the statements that contain no statement. -/
def leaf (fuel : Nat) : Reader Leaf :=
  echo fuel <|> ret fuel <|>
    (do keyword "break"; semicolon; return .break) <|>
    (do keyword "continue"; semicolon; return .continue)

/-- Reads an empty statement or an expression. -/
def plain (fuel : Nat) : Reader Leaf :=
  (do char ';'; return .nop) <|> (do let e ← expr fuel; semicolon; return .expr e)

/-! ### Tying the knot -/

/-- Reads a statement of any kind, given the reader for nested ones. -/
def kind (fuel : Nat) (nested : Led) (k : List Comment) : Reader Stmt :=
  conditional fuel nested k <|> loop fuel nested k <|> switch fuel nested k <|>
    (do return .leaf k (← leaf fuel)) <|>
    (do return .block k (← braced fuel nested)) <|>
    (do return .leaf k (← plain fuel))

/-- Reads a statement from a text shorter than the bound. -/
def statement : Nat → Led
  | 0, _ => fail
  | n + 1, k => kind (n + 1) (statement n) k

@[simp] theorem statement_zero (k : List Comment) : statement 0 k = fail := rfl

theorem statement_succ (n : Nat) (k : List Comment) :
    statement (n + 1) k = kind (n + 1) (statement n) k := rfl

end Reader

end Casework
