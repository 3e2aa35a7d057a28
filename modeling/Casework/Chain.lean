import Casework.Tree.Stmt

/-!
# Chains of conditionals

A conditional with its `elseif` and `else` clauses is a chain: branches that are
tried in order, and what is done when none applies.  The first branch is led by
no comments of its own, because those before `if` lead the whole statement.

Only clauses of one statement make a chain; an `if` inside an `else` begins
another one.

## Main definitions

* `Chain` — branches and what is done otherwise.
* `Chain.of`, `Stmt.chain?` — the chain of a conditional.
* `Program.chain?` — the chain of the first conditional at the top level.
-/

namespace Casework

/-- Branches that are tried in order, and what is done when none applies. -/
structure Chain where
  branches : List (Clause Stmt)
  otherwise : Option (Otherwise Stmt)

/-- The chain of a conditional with the given parts. -/
def Chain.of (cond : Expr) (body : List Stmt) (elseifs : List (Clause Stmt))
    (otherwise : Option (Otherwise Stmt)) : Chain :=
  ⟨⟨[], cond, body⟩ :: elseifs, otherwise⟩

/-- The conditions of the branches, in order. -/
def Chain.conds (chain : Chain) : List Expr :=
  chain.branches.map Clause.cond

/-- The chain of a statement, if it is a conditional. -/
def Stmt.chain? : Stmt → Option Chain
  | .conditional _ cond body elseifs otherwise => some (.of cond body elseifs otherwise)
  | _ => none

/-- The chain of the first conditional at the top level of a program. -/
def Program.chain? (p : Program) : Option Chain :=
  p.stmts.findSome? Stmt.chain?

end Casework
