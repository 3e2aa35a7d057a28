import Casework.Dispatch
import Casework.Match
import Casework.Printer.Layout

/-!
# Converting source texts

The conversions from text to text: reading a program, changing its tree, and
printing the result.

## Main definitions

* `format` — a program in the library's own layout.
* `toSwitch` — a program with every chain of conditionals turned into a switch.
* `toMatch` — the first chain of a program turned into a match, without the rest
  of the program.
-/

namespace Casework

/-- The source text in the library's own layout. -/
def format (source : String) : Except Fault String :=
  (Program.parse source).map Program.text

/-- The source text with every chain of conditionals turned into a switch. -/
def toSwitch (options : SwitchOptions) (source : String) :
    Traced (Except ConvertError String) := do
  match Program.parse source with
  | .error fault => return .error (.unreadable fault)
  | .ok p => return .ok (← p.dispatch options).text

/-- The first chain of conditionals in the source text, turned into a match. -/
def toMatch (source : String) : Traced (Except ConvertError String) := do
  match Program.parse source with
  | .error fault => return .error (.unreadable fault)
  | .ok p => return (← p.toMatch).map Stmt.text

end Casework
