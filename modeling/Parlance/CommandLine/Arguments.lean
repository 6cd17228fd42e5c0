/-
The arguments of the command line.

Arguments are read from left to right.  Asking for help ends the reading at once; so does
the first argument that is wrong.  The empty argument counts as no file, and so does not
stand in the way of a file after it.  An argument is a text: a byte of it that is part of no
character comes as a surrogate.
-/
import Parlance.Text.Basic

namespace Parlance.CommandLine

/-- What is wrong with the arguments. -/
inductive UsageFault where
  | unknownFlag (flag : Text)
  | unexpected (argument : Text)
  | missingFile
  | exclusive
deriving DecidableEq, Repr

/-- The message of a fault. -/
def UsageFault.message : UsageFault → Text
  | unknownFlag a => "unknown flag '" ++ a ++ "'"
  | unexpected a => "unexpected argument '" ++ a ++ "'"
  | missingFile => "missing file argument"
  | exclusive => "--no-check and --check-only are exclusive"

/-- What the arguments ask for. -/
structure Options where
  file : Text
  noCheck : Bool
  checkOnly : Bool
  verbose : Bool
deriving DecidableEq, Repr

/-- The options before any argument has been read. -/
def Options.start : Options := ⟨"", false, false, false⟩

/-- What a command line comes to. -/
inductive Request where
  | help
  | wrong (fault : UsageFault)
  | go (options : Options)
deriving DecidableEq, Repr

/-- What options that have been read in full come to. -/
def Options.request (o : Options) : Request :=
  if o.file = "" then .wrong .missingFile
  else if o.noCheck && o.checkOnly then .wrong .exclusive
  else .go o

/-- Reads the arguments that are left. -/
def readFrom (o : Options) : List Text → Request
  | [] => o.request
  | a :: rest =>
    if a = "--help" ∨ a = "-h" then .help
    else if a = "--no-check" then readFrom { o with noCheck := true } rest
    else if a = "--check-only" then readFrom { o with checkOnly := true } rest
    else if a = "--verbose" then readFrom { o with verbose := true } rest
    else if a.toList.head? = some (.char '-') then .wrong (.unknownFlag a)
    else if o.file = "" then readFrom { o with file := a } rest
    else .wrong (.unexpected a)

/-- Reads a command line. -/
def readArguments (arguments : List Text) : Request :=
  readFrom .start arguments

end Parlance.CommandLine
