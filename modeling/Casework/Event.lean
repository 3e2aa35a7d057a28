import Casework.Printer.Expr
import Casework.Text.Quoted

/-!
# Events

What a conversion reports on its way.  A report is a sequence of events, each
with a level; a computation that reports gives its value together with the
events in the order in which they came about.

## Main definitions

* `Severity` — the levels of a report.
* `Event` — what a conversion reports, with its level and message.
* `Traced` — a value with the events on the way to it, and the monad they form.

## Main results

* `Traced.value_bind`, `Traced.events_bind` — values compose and events adjoin.
-/

namespace Casework

/-! ### Events -/

/-- The levels of a report, the most urgent first. -/
inductive Severity where
  | error
  | warn
  | info
  | debug
  | trace
  deriving DecidableEq

/-- The rank of a level: the more urgent, the lower. -/
def Severity.rank : Severity → Nat
  | .error => 1
  | .warn => 2
  | .info => 3
  | .debug => 4
  | .trace => 5

/-- The name of a level. -/
def Severity.name : Severity → String
  | .error => "ERROR"
  | .warn => "WARN"
  | .info => "INFO"
  | .debug => "DEBUG"
  | .trace => "TRACE"

/-- Why a condition has no key of its own. -/
inductive Fallback where
  | logical
  | other
  deriving DecidableEq

/-- What a conversion reports. -/
inductive Event where
  /-- A condition is dispatched on by its predicate text. -/
  | fallback (cause : Fallback) (predicate : List Char)
  /-- A chain of conditionals was turned into a switch on the subject. -/
  | dispatched (subject : Expr) (branches : Nat) (hasDefault : Bool)
  /-- There was no conditional to turn into a match. -/
  | noConditional

namespace Event

/-- The level of an event. -/
def severity : Event → Severity
  | fallback .. => .trace
  | dispatched .. => .debug
  | noConditional => .debug

/-- The wording of an event. -/
def message : Event → String
  | fallback .logical text =>
    "logical condition falls back to predicate key " ++ String.ofList (quote text)
  | fallback .other text =>
    "opaque condition falls back to predicate key " ++ String.ofList (quote text)
  | dispatched subject branches hasDefault =>
    "rewrote if chain as switch (" ++ String.ofList subject.text ++ "): " ++ branches.repr ++
      " branch(es)" ++ (if hasDefault then " + default" else "")
  | noConditional => "no conditional found for match conversion"

end Event

/-! ### Computations that report -/

/-- A value and the events on the way to it. -/
structure Traced (α : Type) where
  value : α
  events : List Event

namespace Traced

variable {α β : Type}

/-- The unit value, reported with the given event. -/
def report (e : Event) : Traced Unit := ⟨(), [e]⟩

instance : Monad Traced where
  pure a := ⟨a, []⟩
  bind t f := ⟨(f t.value).value, t.events ++ (f t.value).events⟩

@[simp] theorem value_pure (a : α) : (pure a : Traced α).value = a := rfl

@[simp] theorem events_pure (a : α) : (pure a : Traced α).events = [] := rfl

@[simp] theorem value_bind (t : Traced α) (f : α → Traced β) :
    (t >>= f).value = (f t.value).value := rfl

@[simp] theorem events_bind (t : Traced α) (f : α → Traced β) :
    (t >>= f).events = t.events ++ (f t.value).events := rfl

@[simp] theorem value_map (f : α → β) (t : Traced α) : (f <$> t).value = f t.value := rfl

@[simp] theorem events_map (f : α → β) (t : Traced α) : (f <$> t).events = t.events := by
  show t.events ++ [] = t.events
  simp

@[simp] theorem events_report (e : Event) : (report e).events = [e] := rfl

end Traced

end Casework
