import Casework.Reader.Token
import Casework.Tree.Expr

/-!
# Reading expressions

Expressions are read by a tower of levels, each of which reads operands of the
next tighter one: assignment, the ternary choice, seven levels of binary
operators, the unary operators, and calls, indices and properties behind a
primary expression.  An operator is only taken where the character behind it
does not make it part of another operator.

The levels are written as functions of the readers for what is nested inside
them.  `Reader.expression` ties the knot with a bound on the depth of nesting:
each nested reader starts behind a character that has been read, so the length
of the text is bound enough.

## Main definitions

* `Level` — the binary operators by level, with `Level.operator` and
  `Level.chains`.
* `Entry` — where in the tower a nested expression begins.
* `Reader.binary`, `Reader.unary`, `Reader.ternary`, `Reader.assign` — the
  levels.
* `Reader.expression` — the readers for all entries.
* `Reader.expr` — the reader for whole expressions.
-/

namespace Casework

/-! ### Binary operators by level -/

/-- The levels of binary operators, the loosest first. -/
inductive Level where
  | or
  | and
  | equality
  | relation
  | concat
  | sum
  | product
  deriving DecidableEq

namespace Level

/-- All levels, the loosest first. -/
def all : List Level := [or, and, equality, relation, concat, sum, product]

/-- Operators of the level may follow one another, to be grouped from the left. -/
def chains : Level → Bool
  | equality | relation => false
  | or | and | concat | sum | product => true

/-- Reads an operator of the level. -/
def operator : Level → Reader BinOp
  | or => do .token ['|', '|']; pure .or
  | and => do .token ['&', '&']; pure .and
  | equality =>
    (do .token ['=', '=', '=']; pure .identical) <|>
    (do .token ['!', '=', '=']; pure .notIdentical) <|>
    (do .token ['=', '=']; pure .equal) <|>
    (do .token ['!', '=']; pure .notEqual) <|>
    (do .token ['<', '>']; pure .notEqual)
  | relation =>
    (do .token ['<', '=']; pure .lessEqual) <|>
    (do .token ['>', '=']; pure .greaterEqual) <|>
    (do .char '<'; .notNext (· == '>'); pure .less) <|>
    (do .char '>'; pure .greater)
  | concat => do .char '.'; .notNext fun c => c.isDigit || c == '.' || c == '='; pure .concat
  | sum =>
    (do .char '+'; .notNext fun c => c == '+' || c == '='; pure .add) <|>
    (do .char '-'; .notNext fun c => c == '-' || c == '=' || c == '>'; pure .sub)
  | product => do
    let op ←
      (do .char '*'; pure .mul) <|> (do .char '/'; pure .div) <|> (do .char '%'; pure .mod)
    .notNext fun c => c == '*' || c == '/' || c == '='
    pure op

end Level

/-! ### The levels of the tower -/

/-- Where in the tower a nested expression begins. -/
inductive Entry where
  /-- Any expression, assignments included. -/
  | whole
  /-- An expression that is no bare assignment. -/
  | choice
  /-- An operand of a unary operator. -/
  | operand
  deriving DecidableEq

namespace Reader

/-- Reads operands of the next level with operators of this one between them. -/
def binary (fuel : Nat) (level : Level) (operand : Reader Expr) : Reader Expr := do
  let first ← operand
  let step : Reader (BinOp × Expr) := do
    gap
    let op ← level.operator
    let right ← operand
    pure (op, right)
  if level.chains then
    let steps ← many step fuel
    pure (steps.foldl (fun left (op, right) => .binary op left right) first)
  else
    match ← optional step with
    | some (op, right) => pure (.binary op first right)
    | none => pure first

/-- Reads expressions with commas between them and around them the given
brackets.  A comma may stand before the closing bracket. -/
def listIn (fuel : Nat) (opening closing : Char) (whole : Reader Expr) : Reader (List Expr) := do
  char opening
  gap
  let items ← optional do
    let items ← sepBy1 (do gap; whole) (do gap; char ',') fuel
    let _ ← optional do gap; char ','
    pure items
  gap
  char closing
  pure (items.getD [])

/-- Reads an expression between the given brackets. -/
def within (opening closing : Char) (whole : Reader Expr) : Reader Expr := do
  char opening
  gap
  let e ← whole
  gap
  char closing
  pure e

/-- Reads an expression that needs no operator. -/
def primary (fuel : Nat) (whole : Reader Expr) : Reader Expr := do
  gap
  within '(' ')' whole <|>
    (do return .array (← listIn fuel '[' ']' whole)) <|>
    (do char '$'; return .var (← ident)) <|>
    (do return .lit (← literal)) <|>
    (do return .name (← name))

/-- What may follow a primary expression. -/
inductive Suffix where
  | call (args : List Expr)
  | index (index : Expr)
  | prop (name : String)

/-- The expression with what follows it. -/
def Suffix.apply (base : Expr) : Suffix → Expr
  | .call args => .call base args
  | .index i => .index base i
  | .prop x => .prop base x

/-- Reads what follows a primary expression. -/
def suffix (fuel : Nat) (whole : Reader Expr) : Reader Suffix := do
  gap
  (do return .call (← listIn fuel '(' ')' whole)) <|>
    (do return .index (← within '[' ']' whole)) <|>
    (do token ['-', '>']; gap; return .prop (← ident))

/-- Reads a primary expression and all that follows it. -/
def suffixed (fuel : Nat) (whole : Reader Expr) : Reader Expr := do
  let base ← primary fuel whole
  let suffixes ← many (suffix fuel whole) fuel
  pure (suffixes.foldl Suffix.apply base)

/-- Reads an expression with any unary operators before it. -/
def unary (fuel : Nat) (nested : Entry → Reader Expr) : Reader Expr := do
  gap
  (do char '!'; gap; return .unary .not (← nested .operand)) <|>
    (do char '-'; notNext (· == '-'); gap; return .unary .neg (← nested .operand)) <|>
    suffixed fuel (nested .whole)

/-- Reads an expression made of binary operators, through all their levels. -/
def operation (fuel : Nat) (nested : Entry → Reader Expr) : Reader Expr :=
  Level.all.foldr (binary fuel) (unary fuel nested)

/-- Reads an expression and the two branches of a choice, if it is one.  Behind
the colon the second branch has to follow. -/
def ternary (fuel : Nat) (nested : Entry → Reader Expr) : Reader Expr := do
  let cond ← operation fuel nested
  let branches ← optional do
    gap
    char '?'
    let yes ← nested .whole
    gap
    char ':'
    let no ← commit (nested .choice)
    pure (yes, no)
  match branches with
  | some (yes, no) => pure (.ternary cond yes no)
  | none => pure cond

/-- Reads an expression and the value assigned to it, if any. -/
def assign (fuel : Nat) (nested : Entry → Reader Expr) : Reader Expr := do
  let target ← ternary fuel nested
  let value ← optional do
    gap
    char '='
    notNext fun c => c == '=' || c == '>'
    nested .whole
  match value with
  | some value => pure (.assign target value)
  | none => pure target

/-! ### Tying the knot -/

/-- The reader for an entry of the tower, given those for nested expressions. -/
def level (fuel : Nat) (nested : Entry → Reader Expr) : Entry → Reader Expr
  | .whole => assign fuel nested
  | .choice => ternary fuel nested
  | .operand => unary fuel nested

/-- The reader for an entry of the tower, for texts shorter than the bound. -/
def expression : Nat → Entry → Reader Expr
  | 0, _ => fail
  | n + 1, entry => level (n + 1) (expression n) entry

@[simp] theorem expression_zero (entry : Entry) : expression 0 entry = fail := rfl

theorem expression_succ (n : Nat) (entry : Entry) :
    expression (n + 1) entry = level (n + 1) (expression n) entry := rfl

/-- Reads an expression from a text shorter than the bound. -/
def expr (fuel : Nat) : Reader Expr := expression fuel .whole

end Reader

end Casework
