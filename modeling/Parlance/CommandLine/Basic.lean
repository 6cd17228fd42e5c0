/-
The command line.

The program of a file is checked and run, or only one of the two, and the integer that its
entry point answers is the exit status if it can be one.  Everything that goes wrong on
the way ends in one line on the error stream.  Log records go there too, as they come, if
they are asked for.

What the program writes goes to the output stream in its encoding, and a text that has no
bytes in it breaks the run off.  The error stream shows such a text by the numbers of its code
points and refuses nothing; it is kept here as it is before that.

The file is read outside of this module: a run is given a function from names to what is
found under them, and consults it at most once.
-/
import Parlance.CommandLine.Arguments
import Parlance.Program
import Parlance.Document.Reader
import Parlance.Json.Reader

namespace Parlance.CommandLine

/-- What is found under a file's name. -/
inductive Found where
  | text (content : String)
  | missing
  /-- It cannot be opened, for a reason the system gives. -/
  | unreadable (reason : String)
  /-- It is not text, or the name can be no file's. -/
  | notText
deriving DecidableEq, Repr

/-- How a run ends. -/
inductive Ending where
  /-- With an exit status. -/
  | exit (status : Nat)
  /-- In a limit on numbers or on texts, which no message covers. -/
  | broken (limit : Limit)
  /-- Not at all, within the fuel. -/
  | outOfFuel
deriving DecidableEq, Repr

/-- What a run leaves behind. -/
structure Result where
  ending : Ending
  stdout : Text
  stderr : Text
deriving DecidableEq, Repr

/-- The lines of the help text. -/
def usageLines : List Text :=
  ["plc [OPTIONS] FILE.json",
   "",
   "Check and run a PLC program given as a JSON AST.",
   "",
   "Options:",
   "  --no-check    Run without static analysis",
   "  --check-only  Analyze and exit without running",
   "  --verbose     Log pass progress to stderr",
   "  --help        Show this help message",
   "",
   "Exit status is the Integer returned by main/0. It is 1 on errors, and also",
   "when main/0 returns a value outside 0..255. Usage errors exit with 2."]

/-- The help text. -/
def usage : Text :=
  Text.ofLines usageLines

/-- A diagnostic as a line. -/
def diagnostic (message : Text) : Text :=
  "plc: " ++ message ++ "\n"

/-- The diagnostic for a fault of the program. -/
def faultDiagnostic (r : Fault.Report) : Text :=
  let stage : String :=
    match r.stage with
    | .analysis => "analysis error: "
    | .evaluation => "runtime error: "
    | .plain => "error: "
  diagnostic (stage ++ r.kind ++ ": " ++ r.message)

/-- The log as lines, if it is asked for. -/
def logLines (verbose : Bool) (log : Array LogRecord) : Text :=
  if verbose then Text.ofLines (log.toList.map LogRecord.line) else ""

/-- What is left behind by a run that ends with a status and a diagnostic. -/
def Options.ended (o : Options) (σ : Store) (status : Nat) (diagnostic : Text) : Result :=
  ⟨.exit status, σ.output, logLines o.verbose σ.log ++ diagnostic⟩

/-- What is left behind by a run that stops. -/
def Options.stopped (o : Options) (σ : Store) : Stop → Result
  | .fault f =>
    match f.report with
    | .ok r => o.ended σ 1 (faultDiagnostic r)
    | .error l => ⟨.broken l, σ.output, logLines o.verbose σ.log⟩
  | .outOfFuel => ⟨.outOfFuel, σ.output, logLines o.verbose σ.log⟩

/-- What is left behind by a run whose entry point has answered a value. -/
def Options.answered (o : Options) (σ : Store) : Value → Result
  | .integer n =>
    if 0 ≤ n ∧ n ≤ 255 then o.ended σ n.toNat ""
    else
      match Value.integerText n with
      | .ok t =>
        o.ended σ 1
          (diagnostic ("main/0 returned " ++ t ++ ", outside the exit status range 0..255"))
      | .error l => o.stopped σ (.fault (.limit l))
  | v =>
    o.ended σ 1
      (diagnostic ("runtime error: " ++ (RunFault.mainResult v.kind).kind ++ ": main/0 returned "
        ++ v.kind))

/-- Evaluates a program. -/
def Options.evaluate (o : Options) (fuel : Nat) (s : Source) (σ : Store) : Result :=
  match (s.evaluate .none fuel).run σ with
  | .ok v σ => o.answered σ v
  | .error e σ => o.stopped σ e

/-- Checks and runs a program, or does only one of the two. -/
def Options.perform (o : Options) (fuel : Nat) (stdout : Encoding) (s : Source) : Result :=
  if o.noCheck then o.evaluate fuel s (.opened stdout)
  else
    match s.analyze .none (.opened stdout) with
    | ⟨_, .error f, σ⟩ => o.stopped σ (.fault f)
    | ⟨s, .ok _, σ⟩ =>
      let σ := σ.report (.passed o.file)
      if o.checkOnly then o.ended σ 0 "" else o.evaluate fuel s σ

/-- Runs the document of a file. -/
def Options.load (o : Options) (fuel : Nat) (stdout : Encoding) (d : Json) : Result :=
  match Document.toSource d with
  | .error f => o.stopped .initial (.fault (.document f))
  | .ok s => o.perform fuel stdout s

/-- Runs what is found under the file's name. The reason why a text is no JSON value, or why bytes
are no text, is the host's own wording; a fixed phrase stands in its place here. -/
def Options.runFound (o : Options) (fuel : Nat) (stdout : Encoding) : Found → Result
  | .missing => o.ended .initial 1 (diagnostic (o.file ++ ": No such file or directory"))
  | .unreadable reason => o.ended .initial 1 (diagnostic (o.file ++ ": " ++ reason))
  | .notText => o.ended .initial 1 (diagnostic (o.file ++ ": invalid JSON: not a text"))
  | .text content =>
    match Json.ofText? content with
    | none => o.ended .initial 1 (diagnostic (o.file ++ ": invalid JSON: no value can be read"))
    | some d => o.load fuel stdout d

/-- Runs a command line. -/
def run (arguments : List Text) (files : Text → Found) (fuel : Nat)
    (stdout : Encoding := .utf8) : Result :=
  match readArguments arguments with
  | .help => ⟨.exit 0, usage, ""⟩
  | .wrong f => ⟨.exit 2, "", diagnostic f.message⟩
  | .go o => o.runFound fuel stdout (files o.file)

end Parlance.CommandLine
