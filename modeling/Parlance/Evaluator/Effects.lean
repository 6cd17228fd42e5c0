/-
What evaluation does.

An evaluation works on the store and may stop, for a fault or because its fuel ran out.  A
fault keeps the store as it was when the fault arose.  A text that the stream refuses is not
written at all.
-/
import Parlance.Store.Registry

namespace Parlance

/-- Why an evaluation has no result. -/
inductive Stop where
  /-- Something went wrong. -/
  | fault (cause : Fault)
  /-- The fuel ran out. -/
  | outOfFuel
deriving DecidableEq, Repr

/-- An evaluation: it works on the store, and may stop. -/
abbrev Eval := EStateM Stop Store

namespace Eval

/-- The result of something that reads nothing but its arguments. -/
def lift {α : Type} (r : Except Fault α) : Eval α :=
  match r with
  | .ok a => pure a
  | .error f => throw (.fault f)

/-- The result of reading the store. -/
def read {α : Type} (r : Store → Except BindingFault α) : Eval α := do
  lift ((r (← get)).mapError .binding)

/-- Stops for a fault of evaluation. -/
def fail {α : Type} (cause : RunFault) : Eval α :=
  throw (.fault (.run cause))

/-- The text of a value. -/
def text (v : Value) : Eval Text :=
  lift (v.text.mapError .limit)

/-- Writes a text, unless the stream refuses it. -/
def write (t : Text) : Eval Unit := do
  if (← get).encoding.takes t then modify (·.write t) else throw (.fault .encoding)

/-- Reports progress. -/
def report (record : LogRecord) : Eval Unit :=
  modify (·.report record)

end Eval

end Parlance
