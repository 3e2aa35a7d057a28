import Casework.Tree.Expr

/-!
# Statements and programs

The tree of a program.  A comment belongs to the node that it leads: a
statement, an `elseif` or `else` clause, a `case`.  Comments that lead nothing,
such as those before a closing brace, are carried by an empty statement.

## Main definitions

* `Leaf` — the statements that contain no statement.
* `Stmt` — statements, each with the comments that lead it.
* `Clause`, `Otherwise`, `Case` — the parts of conditionals and switches.
* `Program` — a list of statements, with or without an opening tag.
-/

namespace Casework

/-- A statement that contains no other statement. -/
inductive Leaf where
  | echo (operands : List Expr)
  | expr (value : Expr)
  | «return» (value : Option Expr)
  | «break»
  | «continue»
  /-- Nothing: a lone semicolon, or a place for comments that lead nothing. -/
  | nop

/-- Control never passes from the statement to the next one. -/
def Leaf.isJump : Leaf → Bool
  | .return _ | .break | .continue => true
  | .echo _ | .expr _ | .nop => false

/-- One condition of a conditional with the statements it guards. -/
structure Clause (σ : Type) where
  comments : List Comment
  cond : Expr
  body : List σ

/-- The `else` clause of a conditional. -/
structure Otherwise (σ : Type) where
  comments : List Comment
  body : List σ

/-- One case of a `switch`; without a key it is the default. -/
structure Case (σ : Type) where
  comments : List Comment
  key : Option Expr
  body : List σ

/-- A statement with the comments that lead it. -/
inductive Stmt where
  | leaf (comments : List Comment) (leaf : Leaf)
  | block (comments : List Comment) (body : List Stmt)
  | «while» (comments : List Comment) (cond : Expr) (body : List Stmt)
  /-- `if (cond) body`, its `elseif` clauses and its `else` clause. -/
  | conditional (comments : List Comment) (cond : Expr) (body : List Stmt)
      (elseifs : List (Clause Stmt)) (otherwise : Option (Otherwise Stmt))
  | switch (comments : List Comment) (subject : Expr) (cases : List (Case Stmt))

instance : Inhabited Stmt := ⟨.leaf [] .nop⟩

namespace Stmt

/-- The comments that lead the statement. -/
def comments : Stmt → List Comment
  | leaf k _ | block k _ | «while» k _ _ | conditional k _ _ _ _ | switch k _ _ => k

/-- The statement is empty: it does nothing and at most carries comments. -/
def isNop : Stmt → Bool
  | leaf _ .nop => true
  | _ => false

/-- Control never passes from the statement to the next one. -/
def isJump : Stmt → Bool
  | leaf _ l => l.isJump
  | _ => false

end Stmt

/-- A whole source text. -/
structure Program where
  /-- Whether the text begins with the opening tag. -/
  openTag : Bool
  stmts : List Stmt

end Casework
