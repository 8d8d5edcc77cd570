import Semant.CommandLine

/-!
# The program

Reads the file or standard input, compiles it and leaves with the status of the outcome.
-/

set_option autoImplicit false

open Semant.CommandLine

/-- Standard input is read piece by piece until it ends, a file as a whole. Whatever keeps a file
from being read is one error to the caller. -/
def readContent : Option String → IO (Option ByteArray)
  | none => do
    let stdin ← IO.getStdin
    let mut bytes := ByteArray.empty
    repeat
      let piece ← stdin.read 65536
      if piece.isEmpty then
        break
      bytes := bytes ++ piece
    return some bytes
  | some path =>
    try
      let bytes ← IO.FS.readBinFile path
      return some bytes
    catch _ =>
      return none

/-- The options are settled first, so a command line that is wrong never waits for input. -/
def main (arguments : List String) : IO UInt32 := do
  let outcome ← match Command.ofArguments arguments with
    | .error e => pure (.error (.option e))
    | .ok command => do
      let content ← readContent command.path
      pure (command.compile content)
  let leave := Exit.of outcome
  IO.print leave.output
  IO.eprint leave.complaint
  return leave.status.toUInt32
