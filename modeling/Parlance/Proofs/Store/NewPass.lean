/-
What a new pass finds.

A new pass gets a table of its own, in which `print` is the only binding, and it leaves every
table that was there before as it is.  Without a registry from the host it also gets one of
the built-in types, and for each of these a table of its own, which is empty.
-/
import Parlance.Proofs.Store.Tables

namespace Parlance

/-- The function `print` of a pass whose own table is `top`. -/
def printer (top : TableId) : Function :=
  ⟨"print", "System.out.println", [some Builtin.any.type], some Builtin.nil.type, top⟩

namespace Store

/-- The second store has the tables of the first as they were, and perhaps more tables. -/
structure Keeps (σ τ : Store) : Prop where
  size : σ.tables.size ≤ τ.tables.size
  table : ∀ id, σ.HasTable id → τ.table id = σ.table id

variable {σ τ υ : Store}

theorem Keeps.refl (σ : Store) : σ.Keeps σ :=
  ⟨Nat.le_refl _, fun _ _ => rfl⟩

theorem Keeps.hasTable (h : σ.Keeps τ) {id : TableId} (hid : σ.HasTable id) : τ.HasTable id :=
  Nat.lt_of_lt_of_le hid h.size

theorem Keeps.trans (h : σ.Keeps τ) (h' : τ.Keeps υ) : σ.Keeps υ :=
  ⟨Nat.le_trans h.size h'.size,
    fun id hid => (h'.table id (h.hasTable hid)).trans (h.table id hid)⟩

theorem keeps_newTable (σ : Store) : σ.Keeps σ.newTable.2 :=
  ⟨by simp [newTable], fun _ hid => table_newTable hid⟩

theorem hasTable_newTable (σ : Store) : σ.newTable.2.HasTable σ.newTable.1 := by
  simp [HasTable, newTable]

theorem not_hasTable_newTable (σ : Store) : ¬σ.HasTable σ.newTable.1 :=
  Nat.lt_irrefl _

/-- A new table is empty, as the table of a number that is not taken. -/
theorem table_newTable_eq (σ : Store) (id : TableId) : σ.newTable.2.table id = σ.table id := by
  rcases Nat.lt_trichotomy id σ.tables.size with h | rfl | h
  · exact table_newTable h
  · rw [show σ.tables.size = σ.newTable.1 from rfl, table_newTable_self]
    simp [table, newTable]
  · simp only [table, newTable, Array.getD_eq_getD_getElem?, Array.getElem?_push,
      if_neg (Nat.ne_of_gt h)]

/-- Changing a table that was not there keeps those that were. -/
theorem Keeps.modifyTable (h : σ.Keeps τ) {id : TableId} (hid : ¬σ.HasTable id)
    (f : Table → Table) : σ.Keeps (τ.modifyTable id f) := by
  refine ⟨by simpa [Store.modifyTable] using h.size, fun other ho => ?_⟩
  have hne : other ≠ id := fun he => hid (he ▸ ho)
  rw [table_modifyTable_of_ne τ hne f, h.table other ho]

/-! ### A new registry -/

/-- The built-in types of a new registry: they bear the names asked for, in order, and their
tables are there and empty. -/
structure NewBuiltins (bs : List Builtin) (σ : Store) (ts : List Ty) (τ : Store) : Prop where
  keeps : σ.Keeps τ
  names : ts.map Ty.name = bs.map Builtin.name
  members : ∀ t ∈ ts, τ.HasTable t.members ∧ τ.table t.members = Table.empty

theorem newBuiltins_spec (bs : List Builtin) (σ : Store) :
    NewBuiltins bs σ (newBuiltins bs σ).1 (newBuiltins bs σ).2 := by
  induction bs generalizing σ with
  | nil => exact ⟨.refl σ, rfl, fun t ht => absurd ht List.not_mem_nil⟩
  | cons b bs ih =>
    have h := ih σ.newTable.2
    refine ⟨σ.keeps_newTable.trans h.keeps, ?_, ?_⟩
    · simpa [newBuiltins] using h.names
    · intro t ht
      rcases List.mem_cons.mp ht with rfl | ht
      · refine ⟨h.keeps.hasTable σ.hasTable_newTable, ?_⟩
        exact (h.keeps.table _ σ.hasTable_newTable).trans σ.table_newTable_self
      · exact h.members t ht

theorem table_newBuiltins (bs : List Builtin) (σ : Store) (id : TableId) :
    (newBuiltins bs σ).2.table id = σ.table id := by
  induction bs generalizing σ with
  | nil => rfl
  | cons b bs ih => exact (ih σ.newTable.2).trans (σ.table_newTable_eq id)

theorem table_registryOr (σ : Store) (registry : Option RegistryId) (id : TableId) :
    (σ.registryOr registry).2.table id = σ.table id := by
  cases registry with
  | none => exact table_newBuiltins Builtin.all σ id
  | some _ => rfl

/-- A registry of the built-in types, each with an empty table of its own. -/
structure FreshRegistry (τ : Store) (id : RegistryId) : Prop where
  names : (τ.registry id).map Ty.name = Builtin.all.map Builtin.name
  members : ∀ t ∈ τ.registry id, τ.HasTable t.members ∧ τ.table t.members = Table.empty

theorem newRegistry_spec (σ : Store) :
    σ.Keeps σ.newRegistry.2 ∧ σ.newRegistry.2.FreshRegistry σ.newRegistry.1 := by
  have h := newBuiltins_spec Builtin.all σ
  have hreg : σ.newRegistry.2.registry σ.newRegistry.1 = (newBuiltins Builtin.all σ).1 := by
    simp [newRegistry, registry, Array.getD_eq_getD_getElem?]
  refine ⟨⟨h.keeps.size, h.keeps.table⟩, ?_, ?_⟩
  · rw [hreg]
    exact h.names
  · rw [hreg]
    exact h.members

namespace FreshRegistry

variable {id : RegistryId} (h : τ.FreshRegistry id)

include h

/-- Only built-in names are registered. -/
theorem name_of_type? {name : Text} {t : Ty} (ht : τ.type? id name = some t) :
    ∃ b : Builtin, t.name = b.name := by
  have hmem : t.name ∈ (τ.registry id).map Ty.name :=
    List.mem_map_of_mem (List.mem_of_find?_eq_some ht)
  rw [h.names] at hmem
  obtain ⟨b, -, hb⟩ := List.mem_map.mp hmem
  exact ⟨b, hb.symm⟩

/-- All of them are. -/
theorem type?_builtin (b : Builtin) :
    ∃ t, τ.type? id b.name = some t ∧ τ.HasTable t.members ∧ τ.table t.members = Table.empty := by
  have hmem : b.name ∈ (τ.registry id).map Ty.name := by
    rw [h.names]
    exact List.mem_map_of_mem b.mem_all
  obtain ⟨u, hu, hn⟩ := List.mem_map.mp hmem
  cases ht : τ.type? id b.name with
  | none =>
    have := List.find?_eq_none.mp ht u hu
    simp [hn] at this
  | some t => exact ⟨t, rfl, h.members t (List.mem_of_find?_eq_some ht)⟩

end FreshRegistry

/-! ### A new pass -/

/-- What a new pass finds: its own table is a new one that binds only `print`, and every table
that was there is kept. -/
structure NewPass (σ : Store) (parent : Option Scope) (print? : Option Implementation)
    (pass : Pass) (τ : Store) : Prop where
  keeps : σ.Keeps τ
  outer : pass.scope.outer = (parent.map Scope.tables).getD []
  fresh : ¬σ.HasTable pass.scope.top
  other : ∀ id, id ≠ pass.scope.top → τ.table id = σ.table id
  top : τ.HasTable pass.scope.top
  table : τ.table pass.scope.top = ⟨[], [⟨printer pass.scope.top, print?⟩]⟩

/-- Binding `print` in a new table of a store that has kept all of the first. -/
theorem NewPass.of_keeps {σ ρ : Store} (hr : σ.Keeps ρ) (ht : ∀ id, ρ.table id = σ.table id)
    (parent : Option Scope) (registry : RegistryId) (print? : Option Implementation) :
    NewPass σ parent print? ⟨(ρ.newScope parent).1, registry⟩
      ((ρ.newScope parent).2.modifyTable (ρ.newScope parent).1.top fun t =>
        t.addRoutine ⟨printer (ρ.newScope parent).1.top, print?⟩) := by
  have hfresh : ¬σ.HasTable ρ.newTable.1 := fun h => not_hasTable_newTable _ (hr.hasTable h)
  refine ⟨(hr.trans (keeps_newTable _)).modifyTable hfresh _, rfl, hfresh, ?_, ?_, ?_⟩
  · intro id hid
    refine (table_modifyTable_of_ne _ hid _).trans ?_
    exact (table_newTable_eq _ id).trans (ht id)
  · exact (hasTable_modifyTable _).mpr (hasTable_newTable _)
  · refine (table_modifyTable_self (hasTable_newTable _) _).trans ?_
    rw [table_newTable_self]
    rfl

theorem newPass_eq {σ ρ : Store} {registry : Option RegistryId} {id : RegistryId}
    (h : σ.registryOr registry = (id, ρ)) (parent : Option Scope)
    (print? : Option Implementation) :
    σ.newPass parent registry print? = (⟨(ρ.newScope parent).1, id⟩,
      (ρ.newScope parent).2.modifyTable (ρ.newScope parent).1.top fun t =>
        t.addRoutine ⟨printer (ρ.newScope parent).1.top, print?⟩) := by
  unfold newPass
  rw [h]
  rfl

theorem newPass_spec (σ : Store) (parent : Option Scope) (registry : Option RegistryId)
    (print? : Option Implementation) :
    NewPass σ parent print? (σ.newPass parent registry print?).1
      (σ.newPass parent registry print?).2 := by
  have hr : σ.Keeps (σ.registryOr registry).2 := by
    cases registry with
    | none => exact σ.newRegistry_spec.1
    | some id => exact .refl σ
  have ht := σ.table_registryOr registry
  rcases h : σ.registryOr registry with ⟨id, ρ⟩
  rw [h] at hr ht
  rw [newPass_eq h]
  exact .of_keeps hr ht parent id print?

theorem stream_newBuiltins (bs : List Builtin) (σ : Store) :
    (newBuiltins bs σ).2.output = σ.output ∧ (newBuiltins bs σ).2.encoding = σ.encoding := by
  induction bs generalizing σ with
  | nil => exact ⟨rfl, rfl⟩
  | cons b bs ih => exact ih σ.newTable.2

/-- A new pass writes nothing, and to the same stream. -/
theorem stream_newPass (σ : Store) (parent : Option Scope) (registry : Option RegistryId)
    (print? : Option Implementation) :
    (σ.newPass parent registry print?).2.output = σ.output ∧
      (σ.newPass parent registry print?).2.encoding = σ.encoding := by
  have kept : (σ.registryOr registry).2.output = σ.output ∧
      (σ.registryOr registry).2.encoding = σ.encoding := by
    cases registry with
    | none => simp [registryOr, newRegistry, stream_newBuiltins]
    | some id => exact ⟨rfl, rfl⟩
  rcases h : σ.registryOr registry with ⟨id, ρ⟩
  rw [h] at kept
  rw [newPass_eq h]
  exact kept

theorem registries_newBuiltins (bs : List Builtin) (σ : Store) :
    (newBuiltins bs σ).2.registries = σ.registries := by
  induction bs generalizing σ with
  | nil => rfl
  | cons b bs ih => exact ih σ.newTable.2

theorem registry_push (σ : Store) (ts : List Ty) (r : RegistryId) :
    ({ σ with registries := σ.registries.push ts } : Store).registry r
      = if r = σ.registries.size then ts else σ.registry r := by
  simp only [registry, Array.getD_eq_getD_getElem?, Array.getElem?_push]
  split <;> rfl

/-- A new pass leaves the registries as they were. -/
theorem registry_newPass (σ : Store) (parent : Option Scope) (registry : Option RegistryId)
    (print? : Option Implementation) {id : RegistryId} (hid : id < σ.registries.size) :
    (σ.newPass parent registry print?).2.registry id = σ.registry id := by
  have kept : (σ.registryOr registry).2.registry id = σ.registry id := by
    cases registry with
    | some given => rfl
    | none =>
      have hold := registries_newBuiltins Builtin.all σ
      simp only [registryOr, newRegistry]
      rw [registry_push, hold, if_neg (Nat.ne_of_lt hid), registry, hold, registry]
  rcases h : σ.registryOr registry with ⟨own, ρ⟩
  rw [h] at kept
  rw [newPass_eq h]
  exact kept

/-- None of them gets lost. -/
theorem size_registries_newPass (σ : Store) (parent : Option Scope)
    (registry : Option RegistryId) (print? : Option Implementation) :
    σ.registries.size ≤ (σ.newPass parent registry print?).2.registries.size := by
  have kept : σ.registries.size ≤ (σ.registryOr registry).2.registries.size := by
    cases registry with
    | some given => exact Nat.le_refl _
    | none =>
      have hold := registries_newBuiltins Builtin.all σ
      simp [registryOr, newRegistry, hold]
  rcases h : σ.registryOr registry with ⟨own, ρ⟩
  rw [h] at kept
  rw [newPass_eq h]
  exact kept

/-- A fresh registry is as fresh in a store that has the same registries and has kept all tables. -/
theorem FreshRegistry.of_keeps {id : RegistryId} (h : τ.FreshRegistry id) (hk : τ.Keeps υ)
    (hr : υ.registry id = τ.registry id) : υ.FreshRegistry id := by
  refine ⟨hr ▸ h.names, ?_⟩
  intro t ht
  rw [hr] at ht
  have hm := h.members t ht
  exact ⟨hk.hasTable hm.1, (hk.table _ hm.1).trans hm.2⟩

/-- Without a registry from the host, the pass has a fresh one. -/
theorem newPass_registry (σ : Store) (parent : Option Scope) (print? : Option Implementation) :
    (σ.newPass parent none print?).2.FreshRegistry (σ.newPass parent none print?).1.registry ∧
      ∀ t ∈ (σ.newPass parent none print?).2.registry (σ.newPass parent none print?).1.registry,
        t.members ≠ (σ.newPass parent none print?).1.scope.top := by
  have hfresh := σ.newRegistry_spec.2
  rcases h : σ.newRegistry with ⟨id, ρ⟩
  rw [h] at hfresh
  rw [newPass_eq (show σ.registryOr none = (id, ρ) from h)]
  have hk : ρ.Keeps ((ρ.newScope parent).2.modifyTable (ρ.newScope parent).1.top fun t =>
      t.addRoutine ⟨printer (ρ.newScope parent).1.top, print?⟩) :=
    (keeps_newTable ρ).modifyTable (not_hasTable_newTable ρ) _
  refine ⟨hfresh.of_keeps hk rfl, ?_⟩
  intro t ht
  show t.members ≠ ρ.newTable.1
  intro he
  exact not_hasTable_newTable ρ (he ▸ (hfresh.members t ht).1)

end Store

end Parlance
