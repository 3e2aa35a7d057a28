/-!
# Command-line options

The command takes at most one path, `-` standing for the standard input, and two
options: the construct to convert to, in one of the forms `-t V`, `-tV`, `-t=V`,
`--target V` and `--target=V`, and the flag `--terminate-cases`.  Neither may be
given twice, option names may not be shortened, and behind `--` everything is a
path.

## Main definitions

* `Target`, `Origin` — what to convert to and where the source comes from.
* `Options` — the options of one run.
* `Options.parse?` — the options that a list of arguments stands for.
-/

namespace Casework

/-- The construct that chains of conditionals are turned into. -/
inductive Target where
  | switch
  | «match»
  deriving DecidableEq

/-- The name of the target in a report. -/
def Target.name : Target → String
  | .switch => "Switch"
  | .match => "Match"

/-- The target with the given name on the command line. -/
def Target.ofArg? : String → Option Target
  | "switch" => some .switch
  | "match" => some .match
  | _ => none

/-- Where the source text comes from. -/
inductive Origin where
  /-- A built-in example. -/
  | demo
  /-- The standard input. -/
  | input
  /-- The file at the given path. -/
  | file (path : String)
  deriving DecidableEq

/-- The origin that a path stands for; an empty path stands for none. -/
def Origin.ofPath? (path : String) : Option Origin :=
  if path = "" then none else if path = "-" then some .input else some (.file path)

/-- The origin in a report. -/
def Origin.name : Origin → String
  | .demo => "demo source"
  | .input => "-"
  | .file path => path

/-- The options of one run. -/
structure Options where
  origin : Origin
  target : Target
  terminate : Bool
  deriving DecidableEq

namespace Options

/-! ### What has been given so far -/

/-- The options met so far; each may be met once. -/
structure Given where
  origin : Option Origin := none
  target : Option Target := none
  terminate : Bool := false

namespace Given

/-- The path is given. -/
def path? (g : Given) (path : String) : Option Given :=
  match g.origin, Origin.ofPath? path with
  | none, some origin => some { g with origin := some origin }
  | _, _ => none

/-- The target is given by its name. -/
def target? (g : Given) (name : String) : Option Given :=
  match g.target, Target.ofArg? name with
  | none, some target => some { g with target := some target }
  | _, _ => none

/-- The flag is given. -/
def terminate? (g : Given) : Option Given :=
  if g.terminate then none else some { g with terminate := true }

/-- The options of the run, where what was not given is the demo, the switch and
no flag. -/
def options (g : Given) : Options :=
  ⟨g.origin.getD .demo, g.target.getD .switch, g.terminate⟩

end Given

/-! ### Arguments -/

/-- The value written in the same argument as its option. -/
def inlineTarget? (arg : String) : Option String :=
  match arg.toList with
  | '-' :: '-' :: 't' :: 'a' :: 'r' :: 'g' :: 'e' :: 't' :: '=' :: value =>
    some (String.ofList value)
  | '-' :: 't' :: '=' :: value => some (String.ofList value)
  | '-' :: 't' :: c :: value => some (String.ofList (c :: value))
  | _ => none

/-- The argument looks like an option: it begins with a hyphen and has more. -/
def isOption (arg : String) : Bool :=
  match arg.toList with
  | '-' :: _ :: _ => true
  | _ => false

/-- What is given by the arguments behind `--`, all of them paths. -/
def paths (g : Given) : List String → Option Given
  | [] => some g
  | arg :: args => do paths (← g.path? arg) args

/-- What is given by the arguments. -/
def arguments (g : Given) : List String → Option Given
  | [] => some g
  | "--" :: args => paths g args
  | "--terminate-cases" :: args => do arguments (← g.terminate?) args
  | "-t" :: value :: args => do arguments (← g.target? value) args
  | "--target" :: value :: args => do arguments (← g.target? value) args
  | arg :: args =>
    match inlineTarget? arg with
    | some value => do arguments (← g.target? value) args
    | none => if isOption arg then none else do arguments (← g.path? arg) args

/-- The options that the arguments stand for, if they stand for any. -/
def parse? (args : List String) : Option Options :=
  (arguments {} args).map Given.options

end Options

end Casework
