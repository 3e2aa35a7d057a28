import Casework.Chain
import Casework.Resolution

/-!
# From a chain to a switch

Each branch of a chain becomes a case with the key of its condition, and the
`else` clause becomes the default case, which stands last.  Bodies and comments
are kept.  On request, every case but the default is ended by a `break`, unless
it ends in a jump already; empty statements at its end do not count.

## Main definitions

* `SwitchOptions` — whether cases are to be ended.
* `endsInJump`, `terminate` — a body that ends in a jump.
* `Switch` — the parts of a switch statement.
* `Chain.toSwitch` — the switch of a chain.
-/

namespace Casework

/-- How a chain is turned into a switch. -/
structure SwitchOptions where
  /-- End every case but the default in a jump. -/
  terminate : Bool := false
  deriving DecidableEq

/-! ### Ending a case -/

/-- The last statement that is not empty is a jump. -/
def endsInJump (body : List Stmt) : Bool :=
  (body.reverse.find? (!·.isNop)).any Stmt.isJump

/-- The body, ended by a `break` unless it ends in a jump already. -/
def terminate (body : List Stmt) : List Stmt :=
  if endsInJump body then body else body ++ [.leaf [] .break]

/-! ### Building the switch -/

/-- The parts of a switch statement. -/
structure Switch where
  subject : Expr
  cases : List (Case Stmt)

/-- The switch as a statement led by the given comments. -/
def Switch.stmt (comments : List Comment) (s : Switch) : Stmt :=
  .switch comments s.subject s.cases

/-- The case of a branch. -/
def Clause.toCase (options : SwitchOptions) (branch : Clause Stmt) (key : Expr) : Case Stmt :=
  ⟨branch.comments, some key,
    if options.terminate then Casework.terminate branch.body else branch.body⟩

/-- The default case of an `else` clause. -/
def Otherwise.toCase (otherwise : Otherwise Stmt) : Case Stmt :=
  ⟨otherwise.comments, none, otherwise.body⟩

/-- The switch of a chain. -/
def Chain.toSwitch (options : SwitchOptions) (chain : Chain) : Traced Switch := do
  let resolution ← resolve chain.conds
  return {
    subject := resolution.discriminant.expr
    cases := chain.branches.zipWith (Clause.toCase options) resolution.keys ++
      (chain.otherwise.map Otherwise.toCase).toList }

end Casework
