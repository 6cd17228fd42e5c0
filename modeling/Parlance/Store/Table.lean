/-
Tables of bindings.

A table binds names to variables, and names with a number of parameters to functions.
Each key is bound at most once, and a binding is never taken back: tables only grow, and
of what they hold only the values of variables ever change.

A scope is a chain of tables, the nearest first.  A pass over a program works in a scope
and asks one registry for types.
-/
import Parlance.Syntax.Basic

namespace Parlance

/-- The number of a registry of types in the store. -/
abbrev RegistryId := Nat

/-- A chain of tables: the scope's own, then those of the scopes around it. -/
structure Scope where
  top : TableId
  outer : List TableId
deriving DecidableEq, Repr, Inhabited

/-- The tables of a scope, the nearest first. -/
def Scope.tables (s : Scope) : List TableId :=
  s.top :: s.outer

/-- What a pass over a program works with: its own scope, and a registry. -/
structure Pass where
  scope : Scope
  registry : RegistryId
deriving DecidableEq, Repr, Inhabited

/-- What a function of the host does from some point on. It can change the values of variables,
but nothing in a deed declares, makes a table or an object, or calls a function. -/
inductive Deed where
  /-- It answers a value. -/
  | answer (value : Value)
  /-- It fails. -/
  | fail (cause : Fault)
  /-- It looks for a variable in a table, and goes on by the value that was found. -/
  | look (id : TableId) (name : Name) (next : Option Value → Deed)
  /-- It gives another value to a variable of a table, if there is one of the name. -/
  | set (id : TableId) (name : Name) (value : Value) (next : Deed)
  /-- It writes a text. -/
  | write (text : Text) (next : Deed)
deriving Inhabited

/-- A function of the host: what it does, by its arguments. -/
structure HostAction where
  does : List Value → Deed
deriving Inhabited

/-- What a function does when it is called. -/
inductive Implementation where
  /-- Writes the text of its argument and ends the line. -/
  | print
  /-- Runs a method in the scope that the pass declared it in. -/
  | method (method : Method) (pass : Pass)
  /-- Acts for the host, and writes a line about the call first if it is traced. -/
  | host (action : HostAction) (traced : Bool)
deriving Inhabited

/-- A variable and its value. -/
structure Slot where
  var : Variable
  value : Value
deriving Inhabited

/-- A function and what it does, if anything. -/
structure Routine where
  function : Function
  implementation? : Option Implementation
deriving Inhabited

/-- Bindings, in the order they were made. -/
structure Table where
  slots : List Slot
  routines : List Routine
deriving Inhabited

namespace Table

/-- The table without bindings. -/
def empty : Table := ⟨[], []⟩

/-- The variable of a name. -/
def slot? (t : Table) (name : Name) : Option Slot :=
  t.slots.find? fun s => s.var.name == name

/-- The function of a name and a number of parameters. -/
def routine? (t : Table) (name : Name) (arity : Nat) : Option Routine :=
  t.routines.find? fun r => r.function.name == name && r.function.arity == arity

/-- Whether a function of that name is bound, whatever its number of parameters. -/
def bindsFunction (t : Table) (name : Name) : Bool :=
  t.routines.any fun r => r.function.name == name

/-- The table with one more variable. -/
def addSlot (t : Table) (s : Slot) : Table :=
  { t with slots := t.slots ++ [s] }

/-- The table with one more function. -/
def addRoutine (t : Table) (r : Routine) : Table :=
  { t with routines := t.routines ++ [r] }

/-- The table with another value for a variable. -/
def setValue (t : Table) (name : Name) (value : Value) : Table :=
  { t with
    slots := t.slots.map fun s => if s.var.name == name then { s with value } else s }

theorem slot?_addSlot (t : Table) (s : Slot) (name : Name) :
    (t.addSlot s).slot? name
      = (t.slot? name).or (if s.var.name = name then some s else none) := by
  by_cases h : s.var.name = name <;> simp [addSlot, slot?, List.find?_append, h]

theorem routine?_addRoutine (t : Table) (r : Routine) (name : Name) (arity : Nat) :
    (t.addRoutine r).routine? name arity
      = (t.routine? name arity).or
          (if r.function.name = name ∧ r.function.arity = arity then some r else none) := by
  by_cases h : r.function.name = name ∧ r.function.arity = arity
  · simp [addRoutine, routine?, List.find?_append, h]
  · rw [if_neg h]
    simp only [addRoutine, routine?, List.find?_append]
    congr 1
    simp [h]

@[simp] theorem routine?_addSlot (t : Table) (s : Slot) (name : Name) (arity : Nat) :
    (t.addSlot s).routine? name arity = t.routine? name arity := rfl

@[simp] theorem slot?_addRoutine (t : Table) (r : Routine) (name : Name) :
    (t.addRoutine r).slot? name = t.slot? name := rfl

@[simp] theorem routine?_setValue (t : Table) (x : Name) (v : Value) (name : Name)
    (arity : Nat) : (t.setValue x v).routine? name arity = t.routine? name arity := rfl

end Table

end Parlance
