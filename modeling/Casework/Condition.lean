import Casework.Printer.Expr
import Casework.Text.Blank

/-!
# Conditions

What a condition looks like decides how it can be dispatched on.  A comparison
by `==` or `===` names a subject and a value; anything else can only be named by
its text.  That predicate text writes `&&` and `||` as words, with each operand
in parentheses, down to the first node that is neither.

## Main definitions

* `Condition`, `Condition.of` — the shape of a condition.
* `Expr.predicate` — the predicate text of a condition.

## Main results

* `Expr.predicate_logical` — the predicate text of a logical condition is made
  of those of its operands.
-/

namespace Casework

/-- The comparisons that a dispatch can stand for. -/
inductive Equality where
  | equal
  | identical
  deriving DecidableEq

/-- The connectives that a predicate text writes as words. -/
inductive Connective where
  | and
  | or
  deriving DecidableEq

/-- The connective as a word. -/
def Connective.word : Connective → List Char
  | .and => ['a', 'n', 'd']
  | .or => ['o', 'r']

/-- The connective as an operator. -/
def Connective.op : Connective → BinOp
  | .and => .and
  | .or => .or

/-- The shape of a condition. -/
inductive Condition where
  /-- A subject compared with a value. -/
  | comparison (equality : Equality) (left right : Expr)
  /-- Two conditions and the connective between them. -/
  | logical (connective : Connective) (left right : Expr)
  /-- Any other expression. -/
  | other (expr : Expr)

/-- The shape of the given condition. -/
def Condition.of : Expr → Condition
  | .binary .equal a b => .comparison .equal a b
  | .binary .identical a b => .comparison .identical a b
  | .binary .and a b => .logical .and a b
  | .binary .or a b => .logical .or a b
  | e => .other e

/-- Two predicate texts in parentheses and the word between them. -/
def joined (connective : Connective) (left right : List Char) : List Char :=
  '(' :: (left ++ ')' :: ' ' :: (connective.word ++ ' ' :: '(' :: (right ++ [')'])))

/-- The predicate text of a condition. -/
def Expr.predicate : Expr → List Char
  | .binary .and a b => joined .and a.predicate b.predicate
  | .binary .or a b => joined .or a.predicate b.predicate
  | e => trim e.text

/-- The predicate text of a logical condition is made of those of its operands. -/
theorem Expr.predicate_logical {e a b : Expr} {c : Connective}
    (h : Condition.of e = .logical c a b) : e.predicate = joined c a.predicate b.predicate := by
  unfold Condition.of at h
  split at h <;> cases h <;> rfl

end Casework
