/-
Stores whose methods are revised.

Putting other methods in the place of those that functions run changes nothing else in a store.  So
variables and types are looked up as before, functions under the same keys, and what is declared,
set, registered or done for the host in the revised store is the same, revised.
-/
import Parlance.Evaluator.Host
import Parlance.Proofs.Paired.Relocation

namespace Parlance

/-- What a function does, its method revised. -/
def Implementation.revise (μ : Method → Method) : Implementation → Implementation
  | method m pass => method (μ m) pass
  | i => i

/-- A function that runs a revised method. -/
def Routine.revise (μ : Method → Method) (r : Routine) : Routine :=
  { r with implementation? := r.implementation?.map (Implementation.revise μ) }

/-- A table of functions that run revised methods. -/
def Table.revise (μ : Method → Method) (t : Table) : Table :=
  { t with routines := t.routines.map (Routine.revise μ) }

/-- The store with all methods in it revised. -/
def Store.revise (μ : Method → Method) (σ : Store) : Store :=
  { σ with tables := σ.tables.map (Table.revise μ) }

variable {μ : Method → Method}

/-! ### Tables -/

namespace Table

@[simp] theorem slot?_revise (t : Table) (name : Name) :
    (t.revise μ).slot? name = t.slot? name := rfl

@[simp] theorem routine?_revise (t : Table) (name : Name) (arity : Nat) :
    (t.revise μ).routine? name arity = (t.routine? name arity).map (Routine.revise μ) :=
  List.find?_map

@[simp] theorem bindsFunction_revise (t : Table) (name : Name) :
    (t.revise μ).bindsFunction name = t.bindsFunction name :=
  List.any_map

@[simp] theorem revise_addSlot (t : Table) (s : Slot) :
    (t.addSlot s).revise μ = (t.revise μ).addSlot s := rfl

@[simp] theorem revise_setValue (t : Table) (name : Name) (v : Value) :
    (t.setValue name v).revise μ = (t.revise μ).setValue name v := rfl

@[simp] theorem revise_addRoutine (t : Table) (r : Routine) :
    (t.addRoutine r).revise μ = (t.revise μ).addRoutine (r.revise μ) := by
  simp [revise, addRoutine]

end Table

/-! ### The store -/

namespace Store

variable (σ : Store)

@[simp] theorem table_revise (id : TableId) : (σ.revise μ).table id = (σ.table id).revise μ := by
  simp only [table, revise, Array.getD_eq_getD_getElem?, Array.getElem?_map]
  cases σ.tables[id]? <;> rfl

theorem revise_modifyTable {f g : Table → Table} (h : ∀ t, (f t).revise μ = g (t.revise μ))
    (id : TableId) : (σ.modifyTable id f).revise μ = (σ.revise μ).modifyTable id g := by
  have tables : (σ.tables.modify id f).map (Table.revise μ)
      = (σ.tables.map (Table.revise μ)).modify id g := by
    apply Array.ext
    · simp
    · intro i hi hi'
      simp only [Array.getElem_map, Array.getElem_modify]
      split
      · exact h _
      · rfl
  simp only [modifyTable, revise, tables]

theorem revise_setValue (v : Variable) (x : Value) :
    (σ.setValue v x).revise μ = (σ.revise μ).setValue v x := by
  unfold setValue
  cases v.home with
  | table id => exact σ.revise_modifyTable (fun t => t.revise_setValue v.name x) id
  | block _ => rfl

theorem revise_setNamed (id : TableId) (name : Name) (x : Value) :
    (σ.setNamed id name x).revise μ = (σ.revise μ).setNamed id name x := by
  simp only [setNamed, table_revise, Table.slot?_revise]
  cases (σ.table id).slot? name with
  | none => rfl
  | some s => exact σ.revise_setValue s.var x

theorem declareVariable_revise (top : TableId) (name : Name) (type : Option Ty) (v : Value)
    (targetName : Option Text) : (σ.revise μ).declareVariable top name type v targetName
      = (σ.declareVariable top name type v targetName).map (Prod.map id (revise μ)) := by
  simp only [declareVariable, table_revise, Table.slot?_revise]
  cases (σ.table top).slot? name with
  | some s => rfl
  | none =>
    rw [← σ.revise_modifyTable fun t => t.revise_addSlot _]
    rfl

theorem declareFunction_revise (top : TableId) (name : Name) (types : List (Option Ty))
    (result : Option Ty) (i : Option Implementation) (targetName : Option Text) :
    (σ.revise μ).declareFunction top name types result (i.map (Implementation.revise μ)) targetName
      = (σ.declareFunction top name types result i targetName).map (Prod.map id (revise μ)) := by
  simp only [declareFunction, table_revise, Table.routine?_revise]
  cases (σ.table top).routine? name types.length with
  | some r => rfl
  | none =>
    have added (f : Function) : (σ.modifyTable top fun t => t.addRoutine ⟨f, i⟩).revise μ
        = (σ.revise μ).modifyTable top fun t =>
            t.addRoutine ⟨f, i.map (Implementation.revise μ)⟩ :=
      σ.revise_modifyTable (fun t => t.revise_addRoutine ⟨f, i⟩) top
    simp only [Option.map_none, Except.map, Prod.map, id, added]

/-! ### Looking up -/

theorem memberVariable_revise (id : TableId) (name : Name) :
    (σ.revise μ).memberVariable id name = σ.memberVariable id name := by
  simp only [memberVariable, table_revise, Table.slot?_revise]

theorem memberFunction_revise (id : TableId) (name : Name) (arity : Nat) :
    (σ.revise μ).memberFunction id name arity
      = (σ.memberFunction id name arity).map (Routine.revise μ) := by
  simp only [memberFunction, table_revise, Table.routine?_revise, Table.bindsFunction_revise]
  cases (σ.table id).routine? name arity with
  | some r => rfl
  | none =>
    simp only [Option.map_none]
    split <;> rfl

theorem scopeVariable_revise (scope : Scope) (name : Name) :
    (σ.revise μ).scopeVariable scope name = σ.scopeVariable scope name := by
  simp only [scopeVariable, findVariable, table_revise, Table.slot?_revise]

theorem scopeFunction_revise (scope : Scope) (name : Name) (arity : Nat) :
    (σ.revise μ).scopeFunction scope name arity
      = (σ.scopeFunction scope name arity).map (Routine.revise μ) := by
  have found : (σ.revise μ).findFunction name arity scope.tables
      = (σ.findFunction name arity scope.tables).map (Routine.revise μ) := by
    simp only [findFunction, table_revise, Table.routine?_revise, List.map_findSome?,
      Function.comp_def]
  simp only [scopeFunction, found, table_revise, Table.bindsFunction_revise]
  cases σ.findFunction name arity scope.tables with
  | some r => rfl
  | none =>
    simp only [Option.map_none]
    split <;> rfl

theorem membersOfValue_revise (id : RegistryId) (v : Value) :
    (σ.revise μ).membersOfValue id v = σ.membersOfValue id v := by
  cases v <;> rfl

/-! ### New passes -/

theorem revise_newTable : σ.newTable.2.revise μ = (σ.revise μ).newTable.2 := by
  simp [newTable, revise, Table.revise, Table.empty]

theorem newTable_revise : (σ.revise μ).newTable.1 = σ.newTable.1 := by
  simp [newTable, revise]

theorem newBuiltins_revise (bs : List Builtin) :
    newBuiltins bs (σ.revise μ) = ((newBuiltins bs σ).1, (newBuiltins bs σ).2.revise μ) := by
  induction bs generalizing σ with
  | nil => rfl
  | cons b bs ih =>
    simp only [newBuiltins, newTable_revise, ← revise_newTable, ih]

theorem newPass_revise (parent : Option Scope) (registry : Option RegistryId)
    {i : Option Implementation} (hi : i.map (Implementation.revise μ) = i) :
    (σ.revise μ).newPass parent registry i
      = ((σ.newPass parent registry i).1, (σ.newPass parent registry i).2.revise μ) := by
  have registryOr : (σ.revise μ).registryOr registry
      = ((σ.registryOr registry).1, (σ.registryOr registry).2.revise μ) := by
    cases registry with
    | some id => rfl
    | none => simp only [Store.registryOr, newRegistry, newBuiltins_revise]; rfl
  simp only [newPass, registryOr, newScope, newTable_revise, ← revise_newTable]
  refine congrArg (Prod.mk _) (revise_modifyTable _ (fun t => ?_) _).symm
  rw [Table.revise_addRoutine, Routine.revise, hi]

/-- Stores that are the same once they are revised have the same values. -/
theorem sameValues_of_revise {σ τ : Store} (h : σ.revise μ = τ.revise μ) : σ.SameValues τ := by
  refine ⟨fun id => ?_, (congrArg Store.output h).symm, (congrArg Store.encoding h).symm⟩
  have slots := congrArg (fun υ : Store => (υ.table id).slots) h
  simp only [table_revise] at slots
  exact slots.symm

end Store

end Parlance
