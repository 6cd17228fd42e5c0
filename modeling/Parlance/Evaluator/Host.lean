/-
Functions of the host.

What a function of the host does is up to the host: by its arguments it looks up variables in
tables, sets them, writes, and then answers or fails.  What it does not do is said once, by
the form of a deed: it declares nothing, makes no table, object or registry, calls no function
of the language, and comes to an end.  A traced function writes its name and the texts of its
arguments before it acts.

Some functions that hosts give are defined here.
-/
import Parlance.Evaluator.Effects

namespace Parlance

/-- An argument of a function of the host, counted back from the last one if the index is
negative. -/
def hostArgument (arguments : List Value) (index : Int) : Except Fault Value :=
  let index := if index < 0 then index + arguments.length else index
  match if index < 0 then none else arguments[index.toNat]? with
  | some v => .ok v
  | none => .error (.limit .argumentCount)

/-- The line that a traced call writes. -/
def traceLine (name : Name) (arguments : List Value) : Except Limit Text := do
  return name.getD "" ++ "(" ++ Text.intercalate ", " (← arguments.mapM Value.text) ++ ")\n"

/-- Does what a deed says. -/
def Deed.perform : Deed → Eval Value
  | answer v => return v
  | fail cause => throw (.fault cause)
  | look id name next => do
    (next (((← get).table id).slot? name |>.map Slot.value)).perform
  | set id name v next => do
    modify (·.setNamed id name v)
    next.perform
  | write t next => do
    Eval.write t
    next.perform

/-- Does what a function of the host does. -/
def Eval.host (action : HostAction) (arguments : List Value) : Eval Value :=
  (action.does arguments).perform

/-! ### Some functions of hosts -/

/-- The members of an argument that must be an object. -/
def hostMembers : Value → Except Fault TableId
  | .object o => .ok o.members
  | _ => .error (.limit .argumentMembers)

/-- The integer that a bound of a range is, if it is one: a Boolean counts as zero or one. Some
values are nothing that could be one. -/
def hostBound : Value → Except Fault (Option Int)
  | .integer n => .ok (some n)
  | .boolean b => .ok (some (if b then 1 else 0))
  | .nil | .iterable _ | .object _ => .error (.limit .argumentMembers)
  | _ => .ok none

/-- The integers from `low` up to but excluding `high`. -/
def integersBetween (low high : Int) : List Int :=
  (List.range (high - low).toNat).map fun (k : Nat) => low + (k : Int)

/-- The deed that goes on with a result, or fails for its fault. -/
def Deed.given {α : Type} (r : Except Fault α) (next : α → Deed) : Deed :=
  match r with
  | .ok a => next a
  | .error f => .fail f

namespace HostAction

/-- Answers a fixed value. -/
def constant (v : Value) : HostAction where
  does _ := .answer v

/-- Answers one of its arguments, counted from the first one, or back from the last if the
index is negative. -/
def argument (index : Int) : HostAction where
  does vs := .given (hostArgument vs index) .answer

/-- Answers the number of characters in the text of its first argument. -/
def length : HostAction where
  does vs := .given (do (← hostArgument vs 0).text.mapError .limit) fun t =>
    .answer (.integer t.length)

/-- Answers the value of a member of its first argument. -/
def member (name : Text) : HostAction where
  does vs := .given (do hostMembers (← hostArgument vs 0)) fun members =>
    .look members name fun
      | some v => .answer v
      | none => .fail (.binding (.undefinedMember name))

/-- Sets a member of its first argument to its second. -/
def setMember (name : Text) : HostAction where
  does vs := .given (hostArgument vs 1) fun v =>
    .given (do hostMembers (← hostArgument vs 0)) fun members =>
      .look members name fun
        | some _ => .set members name v (.answer .nil)
        | none => .fail (.binding (.undefinedMember name))

/-- Answers the integers from its first argument up to its second. -/
def range : HostAction where
  does vs :=
    .given (do return (← hostBound (← hostArgument vs 0), ← hostBound (← hostArgument vs 1))) fun
      | (some low, some high) => .answer (.iterable (integersBetween low high))
      | _ => .fail (.limit .argumentKind)

/-- Fails. -/
def fail (kind message : String) : HostAction where
  does _ := .fail (.raised kind message)

end HostAction

end Parlance
