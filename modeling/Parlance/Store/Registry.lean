/-
Registries of types.

A registry knows the nine built-in types and those the host has registered, each under its
name and for good.  Every registry has member tables of its own for the built-in types; a
registered type is given a table by the host, and shares it with whoever else was given
the same one, or gets a new table.
-/
import Parlance.Store.Basic

namespace Parlance.Store

/-- The types of a registry, in the order they were registered. -/
def registry (σ : Store) (id : RegistryId) : List Ty :=
  σ.registries.getD id []

/-- New types for built-in names, each with a new table. -/
def newBuiltins : List Builtin → Store → List Ty × Store
  | [], σ => ([], σ)
  | b :: bs, σ =>
    let (id, σ) := σ.newTable
    let (ts, σ) := newBuiltins bs σ
    (⟨b.name, b.targetName, id⟩ :: ts, σ)

/-- A new registry of the built-in types. -/
def newRegistry (σ : Store) : RegistryId × Store :=
  let (types, σ) := newBuiltins Builtin.all σ
  (σ.registries.size, { σ with registries := σ.registries.push types })

/-- The type a name is registered for. -/
def type? (σ : Store) (id : RegistryId) (name : Text) : Option Ty :=
  (σ.registry id).find? fun t => t.name == name

/-- The type a name is registered for, or the fault that there is none. -/
def type (σ : Store) (id : RegistryId) (name : Text) : Except BindingFault Ty :=
  match σ.type? id name with
  | some t => .ok t
  | none => .error (.unknownType name)

/-- Registers a type under a name that is not taken. -/
def register (σ : Store) (id : RegistryId) (name : Text) (targetName : Option Text)
    (members : Option TableId) : Except BindingFault (Ty × Store) :=
  match σ.type? id name with
  | some _ => .error (.duplicateType name)
  | none =>
    let (table, σ) :=
      match members with
      | some table => (table, σ)
      | none => σ.newTable
    let t : Ty := ⟨name, (nonempty? targetName).getD name, table⟩
    .ok (t, { σ with registries := σ.registries.modify id fun ts => ts ++ [t] })

/-- The table of the members a value of type `owner` is taken to have: that of the registered
type of its name, if there is one. -/
def membersOfType (σ : Store) (id : RegistryId) (owner : Ty) : TableId :=
  match σ.type? id owner.name with
  | some t => t.members
  | none => owner.members

/-- The table of the members a value has: an object its own, any other value those of the
registered type of its kind. -/
def membersOfValue (σ : Store) (id : RegistryId) : Value → Except BindingFault TableId
  | .object o => .ok o.members
  | v => (σ.type id v.kind).map Ty.members

/-- The registry given, or a new one. -/
def registryOr (σ : Store) : Option RegistryId → RegistryId × Store
  | some id => (id, σ)
  | none => σ.newRegistry

/-- A new pass: a scope inside the parent's that binds `print`, which does what the pass has
it do. -/
def newPass (σ : Store) (parent : Option Scope) (registry : Option RegistryId)
    (print? : Option Implementation) : Pass × Store :=
  let (id, σ) := σ.registryOr registry
  let (scope, σ) := σ.newScope parent
  let printer : Function :=
    ⟨"print", "System.out.println", [some Builtin.any.type], some Builtin.nil.type, scope.top⟩
  (⟨scope, id⟩, σ.modifyTable scope.top fun t => t.addRoutine ⟨printer, print?⟩)

end Parlance.Store
