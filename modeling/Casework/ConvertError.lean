import Casework.Reader.Program

/-!
# Why a conversion fails

## Main definitions

* `BranchShape` — what is wrong with a branch that cannot be an arm.
* `ConvertError` — the causes for which there is no result, with their wording.
-/

namespace Casework

/-- What is wrong with a branch that cannot become an arm of a match. -/
inductive BranchShape where
  /-- It does not hold exactly one statement. -/
  | notSingle
  /-- Its one statement is no `echo`. -/
  | notEcho
  deriving DecidableEq

/-- The wording of what is wrong with a branch. -/
def BranchShape.message : BranchShape → String
  | .notSingle => "expected exactly one statement"
  | .notEcho => "expected an `echo` statement"

/-- Why a conversion has no result. -/
inductive ConvertError where
  /-- The source text cannot be read. -/
  | unreadable (fault : Fault)
  /-- There is no conditional to convert. -/
  | noConditional
  /-- The branch with the given number cannot become an arm. -/
  | unsupported (branch : Nat) (shape : BranchShape)
  deriving DecidableEq

/-- The wording of an error. -/
def ConvertError.message : ConvertError → String
  | .unreadable fault => "Parse error: " ++ fault.message
  | .noConditional => "No if statement found"
  | .unsupported branch shape =>
    "Unsupported branch shape in branch " ++ branch.repr ++ ": " ++ shape.message

end Casework
