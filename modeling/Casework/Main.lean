import Casework.Command.Run

/-!
# The command

Reads arguments and source text, runs the conversion, and prints what it gives.
Everything that is decided is decided by `Options.parse?` and `Options.run`; only
the reading and printing happens here.

The threshold for notices is taken from the environment variable `LOG_LEVEL`.
-/

namespace Casework.Command

/-- The text of the given bytes. -/
def decode (bytes : ByteArray) : Except ReadFailure String :=
  match String.fromUTF8? bytes with
  | some text => .ok text
  | none => .error .notText

/-- The failure that an error of the system stands for. -/
def failureOf : IO.Error → ReadFailure
  | .noFileOrDirectory .. => .notFound
  | .inappropriateType .. => .isDirectory
  | e => .other e.toString

/-- The source text of the given origin. -/
def readSource : Origin → IO (Except ReadFailure String)
  | .demo => return .ok demoSource
  | .input => do
    let stdin ← IO.getStdin
    try
      return decode (← readToEnd stdin ByteArray.empty)
    catch e =>
      return .error (failureOf e)
  | .file path => do
    try
      return decode (← IO.FS.readBinFile path)
    catch e =>
      return .error (failureOf e)
where
  /-- The bytes of a stream up to its end, behind those already read. -/
  readToEnd (stream : IO.FS.Stream) (bytes : ByteArray) : IO ByteArray := do
    let mut all := bytes
    repeat
      let chunk ← stream.read 65536
      if chunk.isEmpty then break
      all := all ++ chunk
    return all

end Casework.Command

open Casework Casework.Command in
/-- Runs the command with the given arguments. -/
def main (args : List String) : IO UInt32 := do
  let some options := Options.parse? args
    | IO.eprintln "error: unexpected arguments"
      return 2
  let threshold := ((← IO.getEnv "LOG_LEVEL").bind Threshold.ofName?).getD Threshold.standard
  let outcome := options.run (← readSource options.origin)
  for notice in outcome.shown threshold do
    IO.eprintln ("[" ++ notice.severity.name ++ "] " ++ notice.message)
  match outcome.result with
  | .ok text =>
    IO.print text
  | .error text =>
    IO.eprint text
  return outcome.exit.toUInt32
