import Casework.Chain
import Casework.ConvertError
import Casework.Event

/-!
# From the first chain to a match

The first conditional of a program, in the order of its text, becomes a `match`
on `true`: each condition selects an arm that calls `echo` with the operands of
the branch's one `echo` statement.  A branch may also hold empty statements,
whose comments go to the arm, but nothing else.

The search goes through blocks, loops and switches, and stops at the first
conditional without looking into it.

## Main definitions

* `Stmt.firstChain?`, `Program.firstChain?` — the first conditional.
* `armOf` — the arm of one branch, or what is wrong with it.
* `Chain.toArms` — the arms of a chain, or its first branch that has none.
* `Program.toMatch` — the match of a program's first conditional.
-/

namespace Casework

/-! ### The first conditional -/

namespace Stmt

mutual

/-- The first conditional in a statement: its comments and its chain. -/
def firstChain? : Stmt → Option (List Comment × Chain)
  | leaf _ _ => none
  | block _ body => firstChainIn? body
  | «while» _ _ body => firstChainIn? body
  | conditional k cond body elseifs otherwise => some (k, .of cond body elseifs otherwise)
  | switch _ _ cases => firstChainInCases? cases

/-- The first conditional in a list of statements. -/
def firstChainIn? : List Stmt → Option (List Comment × Chain)
  | [] => none
  | s :: ss => s.firstChain?.or (firstChainIn? ss)

/-- The first conditional in the cases of a switch. -/
def firstChainInCases? : List (Case Stmt) → Option (List Comment × Chain)
  | [] => none
  | ⟨_, _, body⟩ :: cases => (firstChainIn? body).or (firstChainInCases? cases)

end

/-- The first conditional of a list is the first of its first statement that has
one. -/
theorem firstChainIn?_eq_findSome? (stmts : List Stmt) :
    firstChainIn? stmts = stmts.findSome? firstChain? := by
  induction stmts with
  | nil => rfl
  | cons s ss ih =>
    simp only [firstChainIn?, ih, List.findSome?_cons]
    cases s.firstChain? <;> rfl

end Stmt

/-- The first conditional of a program: its comments and its chain. -/
def Program.firstChain? (p : Program) : Option (List Comment × Chain) :=
  Stmt.firstChainIn? p.stmts

/-! ### Arms -/

/-- The name that an arm calls to do what its branch did. -/
def echoName : Expr := .name "echo"

/-- The comments of the empty statements of a body, in order. -/
def nopComments (body : List Stmt) : List Comment :=
  (body.filter Stmt.isNop).flatMap Stmt.comments

/-- The arm of a branch with the given comments, condition and body, or what is
wrong with it.  Comments of the clause come first, then those of empty
statements, then those of the `echo` statement. -/
def armOf (comments : List Comment) (cond : Option Expr) (body : List Stmt) :
    Except BranchShape (Arm Expr) :=
  match body.filter (!·.isNop) with
  | [.leaf k (.echo operands)] =>
    .ok ⟨comments ++ nopComments body ++ k, cond.map ([·]), .call echoName operands⟩
  | [_] => .error .notEcho
  | _ => .error .notSingle

/-- An outcome for the branch with the given number. -/
def atBranch {α : Type} (branch : Nat) : Except BranchShape α → Except ConvertError α
  | .ok a => .ok a
  | .error shape => .error (.unsupported branch shape)

/-- The arms of branches, of which the first has the given number. -/
def armsFrom : Nat → List (Clause Stmt) → Except ConvertError (List (Arm Expr))
  | _, [] => .ok []
  | n, branch :: branches => do
    let arm ← atBranch n (armOf branch.comments (some branch.cond) branch.body)
    let arms ← armsFrom (n + 1) branches
    return arm :: arms

/-- The arms of a chain: one for each branch, and the default arm last. -/
def Chain.toArms (chain : Chain) : Except ConvertError (List (Arm Expr)) := do
  let arms ← armsFrom 0 chain.branches
  match chain.otherwise with
  | none => return arms
  | some ⟨comments, body⟩ =>
    let arm ← atBranch chain.branches.length (armOf comments none body)
    return arms ++ [arm]

/-! ### The match -/

/-- The match of a program's first conditional, led by the comments of that
conditional. -/
def Program.toMatch (p : Program) : Traced (Except ConvertError Stmt) := do
  match p.firstChain? with
  | none =>
    .report .noConditional
    return .error .noConditional
  | some (k, chain) =>
    return chain.toArms.map fun arms => .leaf k (.expr (.match (.lit (.bool true)) arms))

end Casework
