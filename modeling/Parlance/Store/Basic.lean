/-
The store.

Everything that outlives a step of a program: the tables of bindings, the registries of
types, the identities of objects given out so far, what has been written and in which
encoding, and the log.

Looking up in a scope answers the nearest binding of the key along its chain.  A function
is looked up by its name and the number of arguments together, so a nearer function of the
same name with another number of parameters does not hide one that fits; only when none
fits does it matter whether the name was seen at all.
-/
import Parlance.Store.Table
import Parlance.Text.Encoding
import Parlance.Log

namespace Parlance

/-- The state that outlives a step. -/
structure Store where
  tables : Array Table
  registries : Array (List Ty)
  /-- How many objects the host has made. -/
  objects : Nat
  /-- The encoding of the stream that is written to. -/
  encoding : Encoding
  output : Text
  log : Array LogRecord
deriving Inhabited

namespace Store

/-- The store at the beginning: one reserved, empty table for each built-in type. -/
def opened (encoding : Encoding) : Store where
  tables := Array.replicate Builtin.all.length Table.empty
  registries := #[]
  objects := 0
  encoding := encoding
  output := ""
  log := #[]

/-- The store at the beginning, with a stream in memory. -/
def initial : Store :=
  opened .memory

/-! ### Tables -/

/-- The table of a number; empty if there is none. -/
def table (σ : Store) (id : TableId) : Table :=
  σ.tables.getD id Table.empty

/-- Whether a number is that of a table. -/
def HasTable (σ : Store) (id : TableId) : Prop :=
  id < σ.tables.size

instance (σ : Store) (id : TableId) : Decidable (σ.HasTable id) := by
  unfold HasTable; infer_instance

/-- A new, empty table. -/
def newTable (σ : Store) : TableId × Store :=
  (σ.tables.size, { σ with tables := σ.tables.push Table.empty })

/-- The store with a table changed. -/
def modifyTable (σ : Store) (id : TableId) (f : Table → Table) : Store :=
  { σ with tables := σ.tables.modify id f }

@[simp] theorem table_modifyTable_self {σ : Store} {id : TableId} (h : σ.HasTable id)
    (f : Table → Table) : (σ.modifyTable id f).table id = f (σ.table id) := by
  have h' : id < σ.tables.size := h
  simp [table, modifyTable, Array.getD_eq_getD_getElem?, Array.getElem_modify, h']

theorem table_modifyTable_of_ne (σ : Store) {id other : TableId} (h : other ≠ id)
    (f : Table → Table) : (σ.modifyTable id f).table other = σ.table other := by
  simp [table, modifyTable, Array.getD_eq_getD_getElem?, Array.getElem?_modify, Ne.symm h]

theorem table_newTable {σ : Store} {id : TableId} (h : σ.HasTable id) :
    σ.newTable.2.table id = σ.table id := by
  have h' : id < σ.tables.size := h
  simp [table, newTable, Array.getD_eq_getD_getElem?, Array.getElem?_push, Nat.ne_of_lt h']

@[simp] theorem table_newTable_self (σ : Store) :
    σ.newTable.2.table σ.newTable.1 = Table.empty := by
  simp [table, newTable, Array.getD_eq_getD_getElem?]

/-- A new scope inside another one, or on its own. -/
def newScope (σ : Store) (parent : Option Scope) : Scope × Store :=
  let (id, σ) := σ.newTable
  (⟨id, (parent.map Scope.tables).getD []⟩, σ)

/-! ### Declaring -/

/-- Binds a variable in a table that does not bind its name yet. -/
def declareVariable (σ : Store) (id : TableId) (name : Name) (type : Option Ty)
    (value : Value) (targetName : Option Text) : Except BindingFault (Variable × Store) :=
  match (σ.table id).slot? name with
  | some _ => .error (.duplicateName name)
  | none =>
    let v : Variable := ⟨name, (nonempty? targetName).or name, type, .table id⟩
    .ok (v, σ.modifyTable id fun t => t.addSlot ⟨v, value⟩)

/-- Binds a function in a table that does not bind its name with as many parameters yet. -/
def declareFunction (σ : Store) (id : TableId) (name : Name)
    (parameterTypes : List (Option Ty)) (returnType : Option Ty)
    (implementation? : Option Implementation) (targetName : Option Text) :
    Except BindingFault (Function × Store) :=
  match (σ.table id).routine? name parameterTypes.length with
  | some _ => .error (.duplicateFunction name parameterTypes.length)
  | none =>
    let f : Function := ⟨name, (nonempty? targetName).or name, parameterTypes, returnType, id⟩
    .ok (f, σ.modifyTable id fun t => t.addRoutine ⟨f, implementation?⟩)

/-! ### Looking up -/

/-- A variable among members. -/
def memberVariable (σ : Store) (id : TableId) (name : Name) : Except BindingFault Slot :=
  match (σ.table id).slot? name with
  | some s => .ok s
  | none => .error (.undefinedMember name)

/-- A function among members. -/
def memberFunction (σ : Store) (id : TableId) (name : Name) (arity : Nat) :
    Except BindingFault Routine :=
  match (σ.table id).routine? name arity with
  | some r => .ok r
  | none =>
    if (σ.table id).bindsFunction name then .error (.arity name arity)
    else .error (.undefinedMemberFunction name)

/-- The nearest variable of a name. -/
def findVariable (σ : Store) (name : Name) (ids : List TableId) : Option Slot :=
  ids.findSome? fun id => (σ.table id).slot? name

/-- The nearest function of a name and a number of parameters. -/
def findFunction (σ : Store) (name : Name) (arity : Nat) (ids : List TableId) :
    Option Routine :=
  ids.findSome? fun id => (σ.table id).routine? name arity

/-- A variable in a scope. -/
def scopeVariable (σ : Store) (scope : Scope) (name : Name) : Except BindingFault Slot :=
  match σ.findVariable name scope.tables with
  | some s => .ok s
  | none => .error (.undefinedName name)

/-- A function in a scope. -/
def scopeFunction (σ : Store) (scope : Scope) (name : Name) (arity : Nat) :
    Except BindingFault Routine :=
  match σ.findFunction name arity scope.tables with
  | some r => .ok r
  | none =>
    if scope.tables.any fun id => (σ.table id).bindsFunction name then .error (.arity name arity)
    else .error (.undefinedFunction name)

/-! ### Changing -/

/-- The store with another value for a variable of its tables. -/
def setValue (σ : Store) (v : Variable) (value : Value) : Store :=
  match v.home with
  | .table id => σ.modifyTable id fun t => t.setValue v.name value
  | .block _ => σ

/-- The store with another value for the variable of a name in a table, if there is one. -/
def setNamed (σ : Store) (id : TableId) (name : Name) (value : Value) : Store :=
  match (σ.table id).slot? name with
  | some s => σ.setValue s.var value
  | none => σ

/-- A new object of the host. -/
def newObject (σ : Store) (type : Ty) (members : TableId) : Object × Store :=
  (⟨σ.objects, type, members⟩, { σ with objects := σ.objects + 1 })

/-- The store after a text has been written, which its stream must have taken. -/
def write (σ : Store) (text : Text) : Store :=
  { σ with output := σ.output ++ text }

/-- The store after a report of progress. -/
def report (σ : Store) (record : LogRecord) : Store :=
  { σ with log := σ.log.push record }

end Store

end Parlance
