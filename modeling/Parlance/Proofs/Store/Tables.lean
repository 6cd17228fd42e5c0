/-
What stays of a table while it grows and its values change.

Bindings are only ever added at the end, so a key that a table binds means the same in
every later state of it: looking up finds the first binding, and that one is still the
first.  And a binding is only added when its key is free, so each binding is the one that
its own key finds.

Setting a value reaches one table at most and nothing in it but values.
-/
import Parlance.Store.Registry

namespace Parlance

namespace Table

/-! ### Growing -/

/-- The second table is the first with bindings added. -/
structure Extends (t t' : Table) : Prop where
  slots : t.slots <+: t'.slots
  routines : t.routines <+: t'.routines

variable {t t' t'' : Table}

theorem Extends.refl (t : Table) : t.Extends t :=
  ⟨List.prefix_refl _, List.prefix_refl _⟩

theorem Extends.trans (h : t.Extends t') (h' : t'.Extends t'') : t.Extends t'' :=
  ⟨h.slots.trans h'.slots, h.routines.trans h'.routines⟩

theorem extends_addSlot (t : Table) (s : Slot) : t.Extends (t.addSlot s) :=
  ⟨List.prefix_append _ _, List.prefix_refl _⟩

theorem extends_addRoutine (t : Table) (r : Routine) : t.Extends (t.addRoutine r) :=
  ⟨List.prefix_refl _, List.prefix_append _ _⟩

/-- What a name means stays what it means. -/
theorem Extends.slot? (h : t.Extends t') {name : Name} {s : Slot} (hs : t.slot? name = some s) :
    t'.slot? name = some s := by
  obtain ⟨more, hm⟩ := h.slots
  unfold Table.slot? at hs ⊢
  rw [← hm, List.find?_append, hs, Option.some_or]

/-- What a name and a number of parameters mean stays what they mean. -/
theorem Extends.routine? (h : t.Extends t') {name : Name} {arity : Nat} {r : Routine}
    (hr : t.routine? name arity = some r) : t'.routine? name arity = some r := by
  obtain ⟨more, hm⟩ := h.routines
  unfold Table.routine? at hr ⊢
  rw [← hm, List.find?_append, hr, Option.some_or]

/-! ### One binding to a key -/

/-- Each binding of the table is the one that its own key finds. -/
structure Distinct (t : Table) : Prop where
  slots : ∀ s ∈ t.slots, t.slot? s.var.name = some s
  routines : ∀ r ∈ t.routines, t.routine? r.function.name r.function.arity = some r

theorem distinct_empty : empty.Distinct :=
  ⟨fun _ hs => (List.not_mem_nil hs).elim, fun _ hr => (List.not_mem_nil hr).elim⟩

theorem Distinct.addSlot (h : t.Distinct) {s : Slot} (hs : t.slot? s.var.name = none) :
    (t.addSlot s).Distinct := by
  refine ⟨?_, h.routines⟩
  intro s' hs'
  rcases List.mem_append.mp hs' with hmem | hmem
  · exact (t.extends_addSlot s).slot? (h.slots s' hmem)
  · rw [List.mem_singleton.mp hmem, slot?_addSlot, hs, if_pos rfl, Option.none_or]

theorem Distinct.addRoutine (h : t.Distinct) {r : Routine}
    (hr : t.routine? r.function.name r.function.arity = none) : (t.addRoutine r).Distinct := by
  refine ⟨h.slots, ?_⟩
  intro r' hr'
  rcases List.mem_append.mp hr' with hmem | hmem
  · exact (t.extends_addRoutine r).routine? (h.routines r' hmem)
  · rw [List.mem_singleton.mp hmem, routine?_addRoutine, hr, if_pos ⟨rfl, rfl⟩, Option.none_or]

/-- A variable that a name means is one of the table's and bears that name. -/
theorem mem_of_slot? {name : Name} {s : Slot} (h : t.slot? name = some s) :
    s ∈ t.slots ∧ s.var.name = name :=
  ⟨List.mem_of_find?_eq_some h, by simpa using List.find?_some h⟩

/-- A function that a name and a number of parameters mean is one of the table's, bears that
name and has as many. -/
theorem mem_of_routine? {name : Name} {arity : Nat} {r : Routine}
    (h : t.routine? name arity = some r) :
    r ∈ t.routines ∧ r.function.name = name ∧ r.function.arity = arity :=
  ⟨List.mem_of_find?_eq_some h, by simpa using List.find?_some h⟩

end Table

/-! ### Changing one table -/

namespace Store

/-- All tables of the first store are empty. -/
theorem table_opened (e : Encoding) (id : TableId) : (opened e).table id = Table.empty := by
  simp [table, opened, Array.getD_eq_getD_getElem?, Array.getElem?_replicate]
  split <;> rfl

theorem table_of_not_hasTable {σ : Store} {id : TableId} (h : ¬σ.HasTable id) :
    σ.table id = Table.empty := by
  have hsize : σ.tables.size ≤ id := Nat.le_of_not_lt h
  simp [table, Array.getD_eq_getD_getElem?, hsize]

theorem registry_of_le {σ : Store} {r : RegistryId} (h : σ.registries.size ≤ r) :
    σ.registry r = [] := by
  simp [registry, Array.getD_eq_getD_getElem?, h]

variable (σ : Store)

/-- A table is changed where it is the one to be changed, if there is one of that number. -/
theorem table_modifyTable (id other : TableId) (f : Table → Table) :
    (σ.modifyTable id f).table other = σ.table other
      ∨ other = id ∧ σ.HasTable id ∧ (σ.modifyTable id f).table other = f (σ.table id) := by
  by_cases ho : other = id
  · by_cases h : σ.HasTable id
    · exact .inr ⟨ho, h, ho ▸ table_modifyTable_self h f⟩
    · left
      have hs : σ.tables.size ≤ id := Nat.le_of_not_lt h
      simp [table, modifyTable, Array.getD_eq_getD_getElem?, ho, hs]
  · exact .inl (σ.table_modifyTable_of_ne ho f)

@[simp] theorem hasTable_modifyTable {id other : TableId} {f : Table → Table} :
    (σ.modifyTable id f).HasTable other ↔ σ.HasTable other := by
  simp [HasTable, modifyTable]

/-- Setting a value leaves a table as it is, or sets the value in it. -/
theorem table_setValue (v : Variable) (x : Value) (id : TableId) :
    (σ.setValue v x).table id = σ.table id
      ∨ v.home = .table id ∧ (σ.setValue v x).table id = (σ.table id).setValue v.name x := by
  unfold setValue
  cases hv : v.home with
  | block n => exact .inl rfl
  | table home =>
    rcases σ.table_modifyTable home id fun t => t.setValue v.name x with h | ⟨rfl, -, h⟩
    · exact .inl h
    · exact .inr ⟨rfl, h⟩

/-- Setting a variable by its name is setting the one that is found, if there is one. -/
theorem setNamed_eq (id : TableId) (name : Name) (x : Value) :
    σ.setNamed id name x = σ ∨
      ∃ s, (σ.table id).slot? name = some s ∧ σ.setNamed id name x = σ.setValue s.var x := by
  unfold setNamed
  cases (σ.table id).slot? name with
  | none => exact .inl rfl
  | some s => exact .inr ⟨s, rfl, rfl⟩

/-- Setting a value leaves the stream as it is. -/
theorem encoding_setValue (v : Variable) (x : Value) :
    (σ.setValue v x).encoding = σ.encoding := by
  unfold setValue
  split <;> rfl

/-- A declared function goes to no stream and to no registry. -/
theorem kept_declareFunction {id : TableId} {name : Name} {types : List (Option Ty)}
    {result : Option Ty} {implementation? : Option Implementation} {target : Option Text}
    {a : Function × Store}
    (h : σ.declareFunction id name types result implementation? target = .ok a) :
    a.2.encoding = σ.encoding ∧ a.2.registries = σ.registries := by
  unfold declareFunction at h
  split at h
  · cases h
  · cases h
    exact ⟨rfl, rfl⟩

@[simp] theorem routines_setValue (v : Variable) (x : Value) (id : TableId) :
    ((σ.setValue v x).table id).routines = (σ.table id).routines := by
  rcases σ.table_setValue v x id with h | ⟨-, h⟩ <;> rw [h]
  rfl

@[simp] theorem hasTable_setValue {v : Variable} {x : Value} {id : TableId} :
    (σ.setValue v x).HasTable id ↔ σ.HasTable id := by
  unfold setValue
  split
  · exact σ.hasTable_modifyTable
  · exact Iff.rfl

/-! ### Looking up -/

theorem memberVariable_ok {id : TableId} {name : Name} {s : Slot} :
    σ.memberVariable id name = .ok s ↔ (σ.table id).slot? name = some s := by
  unfold memberVariable
  cases (σ.table id).slot? name <;> simp

theorem memberFunction_ok {id : TableId} {name : Name} {arity : Nat} {r : Routine} :
    σ.memberFunction id name arity = .ok r ↔ (σ.table id).routine? name arity = some r := by
  unfold memberFunction
  cases (σ.table id).routine? name arity with
  | some r' => simp
  | none => simp only [reduceCtorEq, iff_false]; split <;> simp

theorem scopeVariable_ok {scope : Scope} {name : Name} {s : Slot} :
    σ.scopeVariable scope name = .ok s ↔ σ.findVariable name scope.tables = some s := by
  unfold scopeVariable
  cases σ.findVariable name scope.tables <;> simp

theorem scopeFunction_ok {scope : Scope} {name : Name} {arity : Nat} {r : Routine} :
    σ.scopeFunction scope name arity = .ok r ↔
      σ.findFunction name arity scope.tables = some r := by
  unfold scopeFunction
  cases σ.findFunction name arity scope.tables with
  | some r' => simp
  | none => simp only [reduceCtorEq, iff_false]; split <;> simp

/-- In a scope on its own a name means what it means in the only table. -/
theorem scopeVariable_alone {scope : Scope} (h : scope.outer = []) {name : Name} {s : Slot} :
    σ.scopeVariable scope name = .ok s ↔ (σ.table scope.top).slot? name = some s := by
  rw [scopeVariable_ok]
  simp [findVariable, Scope.tables, h]

theorem scopeFunction_alone {scope : Scope} (h : scope.outer = []) {name : Name} {arity : Nat}
    {r : Routine} :
    σ.scopeFunction scope name arity = .ok r ↔
      (σ.table scope.top).routine? name arity = some r := by
  rw [scopeFunction_ok]
  simp [findFunction, Scope.tables, h]

end Store

end Parlance
