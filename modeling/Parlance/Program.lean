/-
Checking and running programs.

A program is checked by one pass and evaluated by another.  Both work inside the scope the
host gives, if it gives one, and ask the host's registry, or each a new one.  Running is
checking and then evaluating, and the entry point must answer an Integer.
-/
import Parlance.Checker.Source
import Parlance.Evaluator.Source

namespace Parlance

/-- What the host provides for a program. -/
structure Host where
  parent : Option Scope
  registry : Option RegistryId
deriving Inhabited

namespace Host

/-- The host that provides nothing. -/
def none : Host := ⟨.none, .none⟩

/-- A new pass that only checks. -/
def checker (host : Host) (σ : Store) : Pass × Store :=
  σ.newPass host.parent host.registry .none

/-- A new pass that evaluates. -/
def evaluator (host : Host) (σ : Store) : Pass × Store :=
  σ.newPass host.parent host.registry (some .print)

end Host

namespace Source

/-- Checks a source with a new pass. -/
def analyze (s : Source) (host : Host) (σ : Store) : Checked Source :=
  let (pass, σ) := host.checker σ
  pass.check s σ

/-- Evaluates a source with a new pass, checked or not. -/
def evaluate (s : Source) (host : Host) (fuel : Nat) : Eval Value := do
  let (pass, σ) := host.evaluator (← get)
  set σ
  pass.evaluate fuel s

/-- The integer that an entry point must answer. -/
def exitValue : Value → Eval Int
  | .integer n => pure n
  | v => Eval.fail (.mainResult v.kind)

/-- Evaluates a source that has been checked, if it passed. -/
def finish (checked : Checked Source) (host : Host) (fuel : Nat) : Eval Int := do
  set checked.store
  Eval.lift checked.verdict
  exitValue (← checked.tree.evaluate host fuel)

/-- Checks a source and evaluates it. -/
def run (s : Source) (host : Host) (fuel : Nat) : Eval Int := do
  finish (s.analyze host (← get)) host fuel

end Source

end Parlance
