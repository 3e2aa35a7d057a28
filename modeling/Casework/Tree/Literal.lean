import Casework.Number.Decimal

/-!
# Comments, literals and operators

The leaves of the syntax tree.  A comment and the raw text of a string literal
are kept as they were written, delimiters and escapes included, so that printing
a tree gives them back unchanged.

## Main definitions

* `Comment` — a comment with its delimiters.
* `Literal` — integers, doubles, strings, truth values and null.
* `Literal.quoted` — the single-quoted literal that stands for a given text.
* `BinOp`, `UnaryOp` — the operators, with their text and binding strength.
-/

namespace Casework

/-! ### Comments -/

/-- A comment as written, delimiters included. -/
structure Comment where
  text : String
  deriving DecidableEq

/-! ### Literals -/

/-- The quotation mark around a string literal. -/
inductive Quote where
  | single
  | double
  deriving DecidableEq

/-- The character that opens and closes the literal. -/
def Quote.mark : Quote → Char
  | .single => '\''
  | .double => '"'

/-- A literal value.  Integers are 64-bit words, and the raw text of a string is
what stands between its quotes, escapes untouched. -/
inductive Literal where
  | int (value : Int64)
  | float (value : Double)
  | str (quote : Quote) (raw : String)
  | bool (value : Bool)
  | null
  deriving DecidableEq

namespace Literal

/-- A text with a backslash before each single quote and each backslash. -/
def escape : List Char → List Char
  | [] => []
  | c :: text =>
    if c == '\'' || c == '\\' then '\\' :: c :: escape text else c :: escape text

@[simp] theorem escape_nil : escape [] = [] := rfl

/-- The single-quoted literal that stands for the given text. -/
def quoted (text : List Char) : Literal :=
  .str .single (String.ofList (escape text))

/-- The text of a literal. -/
def text : Literal → List Char
  | .int n => intText n.toInt
  | .float x => x.text
  | .str q raw => q.mark :: (raw.toList ++ [q.mark])
  | .bool true => "true".toList
  | .bool false => "false".toList
  | .null => "null".toList

end Literal

/-! ### Operators -/

/-- An operator with two operands. -/
inductive BinOp where
  | add
  | sub
  | mul
  | div
  | mod
  | concat
  | equal
  | identical
  | notEqual
  | notIdentical
  | less
  | lessEqual
  | greater
  | greaterEqual
  | and
  | or
  deriving DecidableEq

namespace BinOp

/-- Binding strength: the higher, the tighter. -/
def precedence : BinOp → Nat
  | .or => 4
  | .and => 5
  | .equal | .identical | .notEqual | .notIdentical => 6
  | .less | .lessEqual | .greater | .greaterEqual => 7
  | .concat => 8
  | .add | .sub => 9
  | .mul | .div | .mod => 10

/-- Whether `a op b op c` may be written without parentheses, to be read from the
left.  The operators that compare may not. -/
def chains (op : BinOp) : Bool :=
  op.precedence != 6 && op.precedence != 7

/-- The operator as written. -/
def text : BinOp → List Char
  | .add => ['+']
  | .sub => ['-']
  | .mul => ['*']
  | .div => ['/']
  | .mod => ['%']
  | .concat => ['.']
  | .equal => ['=', '=']
  | .identical => ['=', '=', '=']
  | .notEqual => ['!', '=']
  | .notIdentical => ['!', '=', '=']
  | .less => ['<']
  | .lessEqual => ['<', '=']
  | .greater => ['>']
  | .greaterEqual => ['>', '=']
  | .and => ['&', '&']
  | .or => ['|', '|']

end BinOp

/-- An operator before its operand. -/
inductive UnaryOp where
  | neg
  | not
  deriving DecidableEq

/-- The operator as written. -/
def UnaryOp.text : UnaryOp → List Char
  | .neg => ['-']
  | .not => ['!']

end Casework
