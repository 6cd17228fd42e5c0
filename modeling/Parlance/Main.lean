/-
The program.

Reads the file that the command line names, if it names one, and writes what the run
leaves behind.
-/
import Parlance.CommandLine.Basic

namespace Parlance.CommandLine

/-- More steps than any run takes. -/
def ampleFuel : Nat := 4611686018427387904

/-- A reason that the system gives, with its number, which may come negated, and the name of
the file. -/
def systemReason (code : UInt32) (details name : String) : Found :=
  let number := if code < 0x80000000 then code else 0 - code
  .unreadable ("[Errno " ++ toString number ++ "] " ++ details ++ ": " ++ Text.quoted name)

/-- What is found under the name of a file. -/
def find (name : String) : IO Found := do
  try
    let bytes ← IO.FS.readBinFile name
    match String.fromUTF8? bytes with
    | some content => return .text content
    | none => return .notText
  catch
    | .noFileOrDirectory .. => return .missing
    | .inappropriateType _ code details => return systemReason code details name
    | .permissionDenied _ code details => return systemReason code details name
    | e => return .unreadable (toString e)

/-- How the process ends. -/
def Ending.status : Ending → IO UInt32
  | .exit status => return status.toUInt32
  | .broken limit => do
    IO.eprint (diagnostic limit.message).toString
    return 1
  | .outOfFuel => do
    IO.eprint (diagnostic "out of fuel").toString
    return 1

end Parlance.CommandLine

open Parlance Parlance.CommandLine in
/-- Runs the command line of the process. -/
def main (arguments : List String) : IO UInt32 := do
  let arguments : List Text := arguments.map fun (s : String) => s
  let found ←
    match readArguments arguments with
    | .go o => find o.file.toString
    | _ => pure .missing
  let result := run arguments (fun _ => found) ampleFuel
  IO.print result.stdout.toString
  IO.eprint result.stderr.toString
  result.ending.status
