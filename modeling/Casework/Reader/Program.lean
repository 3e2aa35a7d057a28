import Casework.Reader.Statement
import Casework.Text.Position

/-!
# Reading whole texts

A text is a program or a single expression only if nothing of it is left over.
Otherwise a fault says what was wrong and where.

## Main definitions

* `Reason`, `Fault` — why and where a text could not be read.
* `Program.parse` — a program from its source text.
* `Expr.parse` — an expression from its source text.
-/

namespace Casework

/-! ### Faults -/

/-- Why a text could not be read. -/
inductive Reason where
  /-- Nothing that may stand here fits. -/
  | invalid
  /-- Only one thing may stand here, and it does not. -/
  | expected (what : Expected)
  /-- The text goes on where it should end. -/
  | trailing
  deriving DecidableEq

/-- The wording of a reason. -/
def Reason.message : Reason → String
  | .invalid => "invalid syntax"
  | .expected what => "expected " ++ what.description
  | .trailing => "unexpected trailing input"

/-- Why and where a text could not be read. -/
structure Fault where
  reason : Reason
  position : Position
  deriving DecidableEq

/-- The wording of a fault. -/
def Fault.message (f : Fault) : String :=
  f.reason.message ++ " (line " ++ f.position.line.repr ++ ", column " ++ f.position.column.repr ++
    ", offset " ++ f.position.offset.repr ++ ")"

/-- The fault of a source whose reader failed with the given rest. -/
def Fault.failed (source : List Char) (expected : Option Expected) (rest : List Char) : Fault :=
  ⟨(expected.map Reason.expected).getD .invalid, .before source rest⟩

/-- The white space that a rest begins with, if anything else stands behind it. -/
def leadingWhiteSpace (rest : List Char) : List Char :=
  if rest.all isWhiteSpace then [] else rest.takeWhile isWhiteSpace

/-- The fault of a source of which the given rest is left over: it is reported
behind the white space that the rest begins with, unless there is nothing else. -/
def Fault.leftOver (source rest : List Char) : Fault :=
  ⟨.trailing, .ofOffset source
    (byteSize source - byteSize rest + byteSize (leadingWhiteSpace rest))⟩

/-! ### Programs -/

/-- Reads the opening tag, if there is one. -/
def Reader.openTag : Reader Bool := do
  let tag ← optional do
    let _ ← span isLayout
    token "<?php".toList
  pure tag.isSome

/-- Reads a program from a text shorter than the bound. -/
def Reader.program (fuel : Nat) : Reader Program := do
  let tag ← openTag
  let stmts ← statements (statement fuel) .brace fuel
  pure ⟨tag, stmts⟩

/-- The program written in the source text. -/
def Program.parse (source : String) : Except Fault Program :=
  let chars := source.toList
  match Reader.program (chars.length + 1) chars with
  | .ok program rest =>
    if rest.all isWhiteSpace then .ok program else .error (.leftOver chars rest)
  | .miss rest => .error (.failed chars none rest)
  | .halt expected rest => .error (.failed chars expected rest)

/-! ### Expressions -/

/-- The expression written in the source text. -/
def Expr.parse (source : String) : Except Fault Expr :=
  let chars := source.toList
  let reader : Reader Expr := do
    let e ← Reader.expr (chars.length + 1)
    Reader.gap
    pure e
  match reader chars with
  | .ok e rest => if rest.isEmpty then .ok e else .error (.leftOver chars rest)
  | .miss rest => .error (.failed chars none rest)
  | .halt expected rest => .error (.failed chars expected rest)

end Casework
