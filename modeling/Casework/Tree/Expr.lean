import Casework.Tree.Literal

/-!
# Expressions

The tree of an expression.  Parentheses are not part of it: where they are
needed follows from the binding strengths of a node and its operands.

A `match` expression only arises from converting a chain of conditionals; the
reader of source texts makes none.

## Main definitions

* `Expr` — expressions.
* `Arm` — one arm of a `match`, with the comments that lead it.
* `Expr.precedence` — the binding strength of a node as an operand.
-/

namespace Casework

/-- One arm of a `match`: the conditions that select it, or none for the default
arm, and the value it gives. -/
structure Arm (ε : Type) where
  comments : List Comment
  conds : Option (List ε)
  body : ε

/-- An expression. -/
inductive Expr where
  /-- A variable; the name is without its `$`. -/
  | var (name : String)
  /-- A bare name: a function or a constant, possibly qualified. -/
  | name (name : String)
  | lit (literal : Literal)
  | array (items : List Expr)
  | binary (op : BinOp) (left right : Expr)
  | unary (op : UnaryOp) (operand : Expr)
  | assign (target value : Expr)
  | ternary (cond yes no : Expr)
  | call (callee : Expr) (args : List Expr)
  | index (base index : Expr)
  | prop (base : Expr) (name : String)
  | «match» (subject : Expr) (arms : List (Arm Expr))

instance : Inhabited Expr := ⟨.lit .null⟩

namespace Expr

/-- The binding strength of the node when it stands as an operand: the higher,
the tighter. -/
def precedence : Expr → Nat
  | assign .. => 1
  | ternary .. => 2
  | binary op .. => op.precedence
  | unary .. => 11
  | call .. | index .. | prop .. => 12
  | var _ | name _ | lit _ | array _ | «match» .. => 13

end Expr

end Casework
