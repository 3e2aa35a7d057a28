import Casework.Command.Options
import Casework.Conversion

/-!
# One run of the command

A run converts the source text and prints the result, or fails with an error and
its cause.  It reports what it does as notices, its own and those of the
conversion, of which only those up to a threshold are shown.

## Main definitions

* `demoSource` — the source text of a run without a path.
* `ReadFailure` — why a source text could not be obtained.
* `Notice` — what a run reports.
* `Outcome` — the result of a run.
* `Options.run` — the run itself.
-/

namespace Casework

/-- The source text of a run without a path. -/
def demoSource : String :=
  "<?php\n" ++
  "if ($x == 1 && $y > 0) \x7b\n" ++
  "    echo \"One and positive\";\n" ++
  "\x7d elseif ($x == 2 || $y < 0) \x7b\n" ++
  "    echo \"Two or negative\";\n" ++
  "\x7d elseif ($x >= 3 && $x <= 5) \x7b\n" ++
  "    echo \"Between three and five\";\n" ++
  "\x7d elseif ($x % 2 == 0) \x7b\n" ++
  "    echo \"Even number\";\n" ++
  "\x7d else \x7b\n" ++
  "    echo \"Other cases\";\n" ++
  "\x7d\n"

/-! ### Failures -/

/-- Why a source text could not be obtained. -/
inductive ReadFailure where
  | notFound
  | isDirectory
  /-- The bytes are no UTF-8 text. -/
  | notText
  /-- Anything else that the system reports. -/
  | other (message : String)
  deriving DecidableEq

/-- The wording of a failure to read. -/
def ReadFailure.message : ReadFailure → String
  | .notFound => "No such file or directory (os error 2)"
  | .isDirectory => "Is a directory (os error 21)"
  | .notText => "stream did not contain valid UTF-8"
  | .other message => message

/-- The text of an error and of its cause, if it has one. -/
def errorText (message : String) (cause : Option String) : String :=
  "Error: " ++ message ++ (cause.map ("\n\nCaused by:\n    " ++ ·)).getD "" ++ "\n"

/-- The cause of an error, which only an unreadable source has. -/
def ConvertError.cause? : ConvertError → Option String
  | .unreadable fault => some fault.message
  | .noConditional | .unsupported .. => none

/-- The origin in an error. -/
def Origin.description : Origin → String
  | .input => "stdin"
  | .demo => "demo source"
  | .file path => path

/-! ### Notices -/

/-- What a run reports. -/
inductive Notice where
  /-- A source text of the given size in bytes is being converted. -/
  | converting (origin : Origin) (size : Nat) (target : Target)
  /-- The flag that ends cases is of no use, since a match has none. -/
  | terminateIgnored
  /-- The conversion reports an event. -/
  | conversion (event : Event)

namespace Notice

/-- The level of a notice. -/
def severity : Notice → Severity
  | converting .. => .info
  | terminateIgnored => .warn
  | conversion event => event.severity

/-- The wording of a notice. -/
def message : Notice → String
  | converting origin size target =>
    "converting " ++ origin.name ++ " (" ++ size.repr ++ " bytes) to " ++ target.name
  | terminateIgnored => "--terminate-cases has no effect with --target match"
  | conversion event => event.message

end Notice

/-- The least urgent level that is shown; `none` shows nothing. -/
abbrev Threshold := Option Severity

namespace Threshold

/-- The threshold with the given name. -/
def ofName? : String → Option Threshold
  | "off" => some none
  | "error" => some (some .error)
  | "warn" => some (some .warn)
  | "info" => some (some .info)
  | "debug" => some (some .debug)
  | "trace" => some (some .trace)
  | _ => none

/-- Without a choice, warnings and errors are shown. -/
def standard : Threshold := some .warn

/-- A notice of the given level is shown. -/
def shows (threshold : Threshold) (severity : Severity) : Bool :=
  threshold.any fun least => severity.rank ≤ least.rank

end Threshold

/-! ### The run -/

/-- The result of a run: what it prints, or its error text, and its notices. -/
structure Outcome where
  result : Except String String
  notices : List Notice

/-- The exit status: one after an error. -/
def Outcome.exit (outcome : Outcome) : Nat :=
  match outcome.result with
  | .ok _ => 0
  | .error _ => 1

/-- The notices that a threshold shows. -/
def Outcome.shown (outcome : Outcome) (threshold : Threshold) : List Notice :=
  outcome.notices.filter fun notice => threshold.shows notice.severity

namespace Options

/-- The conversion that the options ask for. -/
def convert (options : Options) (source : String) : Traced (Except ConvertError String) :=
  match options.target with
  | .switch => toSwitch ⟨options.terminate⟩ source
  | .match => toMatch source

/-- The notices before a conversion begins. -/
def announce (options : Options) (source : String) : List Notice :=
  .converting options.origin source.utf8ByteSize options.target ::
    if options.target = .match ∧ options.terminate then [.terminateIgnored] else []

/-- The run on the source text, or on the failure to obtain it. -/
def run (options : Options) (source : Except ReadFailure String) : Outcome :=
  match source with
  | .error failure =>
    ⟨.error (errorText ("failed to read " ++ options.origin.description) failure.message), []⟩
  | .ok source =>
    let converted := options.convert source
    ⟨converted.value.mapError fun e => errorText e.message e.cause?,
      options.announce source ++ converted.events.map .conversion⟩

end Options

end Casework
