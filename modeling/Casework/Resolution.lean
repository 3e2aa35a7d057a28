import Casework.Condition
import Casework.Event

/-!
# Resolving conditions to keys

To turn a chain of conditions into a dispatch, one subject is needed for the
whole chain and one key for each condition.  The first condition decides the
subject: the left operand when it is a comparison, and otherwise the constant
`true`.  A comparison gives its right operand as the key, whatever it compares;
any other condition gives its predicate text as a string.

## Main definitions

* `Discriminant` — what a chain is dispatched on.
* `Expr.key` — the key of one condition.
* `Expr.fallback?` — the event that a condition without a key of its own causes.
* `resolve` — subject and keys of a chain of conditions.

## Main results

* `keys_resolve`, `discriminant_resolve_cons`, `events_resolve` — the keys are taken
  one by one, the subject from the first condition, the events in order.
-/

namespace Casework

/-- What a chain of conditions is dispatched on. -/
inductive Discriminant where
  /-- The left operand of its first condition. -/
  | subject (expr : Expr)
  /-- The truth of each condition in turn. -/
  | truthy

/-- The subject of the dispatch as an expression. -/
def Discriminant.expr : Discriminant → Expr
  | .subject e => e
  | .truthy => .lit (.bool true)

/-- What a chain with the given first condition is dispatched on. -/
def Discriminant.of (first : Expr) : Discriminant :=
  match Condition.of first with
  | .comparison _ left _ => .subject left
  | .logical .. | .other _ => .truthy

/-- The key of a condition: the value it compares with, or its predicate text. -/
def Expr.key (cond : Expr) : Expr :=
  match Condition.of cond with
  | .comparison _ _ right => right
  | .logical .. | .other _ => .lit (.quoted cond.predicate)

/-- The event that a condition without a value to compare with causes. -/
def Expr.fallback? (cond : Expr) : Option Event :=
  match Condition.of cond with
  | .comparison .. => none
  | .logical .. => some (.fallback .logical cond.predicate)
  | .other _ => some (.fallback .other cond.predicate)

/-- Subject and keys of a chain of conditions. -/
structure Resolution where
  discriminant : Discriminant
  keys : List Expr

/-- Resolves a chain of conditions.  Without any condition there is no subject
but the truth. -/
def resolve (conds : List Expr) : Traced Resolution where
  value :=
    { discriminant := (conds.head?.map Discriminant.of).getD .truthy
      keys := conds.map Expr.key }
  events := conds.filterMap Expr.fallback?

/-- Keys are taken one by one. -/
@[simp] theorem keys_resolve (conds : List Expr) :
    (resolve conds).value.keys = conds.map Expr.key := rfl

/-- The first condition decides the subject. -/
@[simp] theorem discriminant_resolve_cons (cond : Expr) (conds : List Expr) :
    (resolve (cond :: conds)).value.discriminant = Discriminant.of cond := rfl

/-- Events come in the order of the conditions. -/
@[simp] theorem events_resolve (conds : List Expr) :
    (resolve conds).events = conds.filterMap Expr.fallback? := rfl

end Casework
