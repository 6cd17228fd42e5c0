/-
Runs beside what has been made in the meantime.

Two runs of the same host may begin in different stores: the second in one that has more tables and
more registries, which some check has made for itself.  What is new in the second run then has
higher numbers, and everything that the host has given has the same.  If the first store refers to
nothing outside of it, nothing leads from there to what else the second one has, so the runs go
together.
-/
import Parlance.Proofs.Paired.Relocation
import Parlance.Proofs.Store.Rooted

namespace Parlance

/-- Numbers from `n` on are moved up by `k`. -/
def shift (n k i : Nat) : Nat :=
  if i < n then i else i + k

section Shift

variable {n k i j : Nat}

theorem shift_of_lt (h : i < n) : shift n k i = i :=
  if_pos h

theorem shift_of_le (h : n ≤ i) : shift n k i = i + k :=
  if_neg (Nat.not_lt.mpr h)

theorem shift_inj : shift n k i = shift n k j ↔ i = j := by
  unfold shift
  split <;> split <;> omega

/-- Beyond where the moving begins, what is below a number stays below. -/
theorem shift_lt_iff (h : n ≤ j) : shift n k i < j + k ↔ i < j := by
  unfold shift
  split <;> omega

theorem shift_eq_iff (h : n ≤ j) : shift n k i = j + k ↔ i = j := by
  rw [← shift_of_le h, shift_inj]

end Shift

/-- The second store has all that the first has, as it was, and nothing more has been written. -/
structure Store.Continues (σ τ : Store) : Prop where
  keeps : σ.Keeps τ
  registries : ∀ r, r < σ.registries.size → τ.registry r = σ.registry r
  moreRegistries : σ.registries.size ≤ τ.registries.size
  output : τ.output = σ.output
  encoding : τ.encoding = σ.encoding

namespace Beside

/-- From which number on tables and registries are moved, and by how many. -/
structure Gap where
  tables : Nat
  moreTables : Nat
  registries : Nat
  moreRegistries : Nat

/-- Tables and registries of the second run have the numbers of the first, moved where they are
new. -/
def Gap.relocation (g : Gap) : Relocation where
  tables i j := shift g.tables g.moreTables i = j
  registries r r' := shift g.registries g.moreRegistries r = r'
  sort v := ∀ o, v = .object o → o.members < g.tables
  faults := Eq
  unique := by
    rintro i j i' j' rfl rfl
    exact shift_inj.symm
  plain v hv o ho := (hv o ho).elim
  members h := shift_of_lt (h _ rfl)
  fault _ := rfl
  streams e e' := e' = e
  takes := by
    rintro e _ rfl t ht
    exact ht

/-- The stores of both runs agree in all that corresponds, and the second has as many tables and
registries more as there were in the beginning. -/
structure Held (g : Gap) (σ τ : Store) : Prop where
  stores : g.relocation.Stores σ τ
  tables : g.tables ≤ σ.tables.size
  moreTables : τ.tables.size = σ.tables.size + g.moreTables
  registries : g.registries ≤ σ.registries.size
  moreRegistries : τ.registries.size = σ.registries.size + g.moreRegistries

variable {g : Gap} {σ τ : Store}

theorem Held.hasTable_iff (htables : g.tables ≤ σ.tables.size)
    (hmore : τ.tables.size = σ.tables.size + g.moreTables) {i j : TableId}
    (hij : g.relocation.tables i j) : σ.HasTable i ↔ τ.HasTable j := by
  cases hij
  rw [Store.HasTable, Store.HasTable, hmore, shift_lt_iff htables]

/-! ### The beginning -/

/-- What the second store has more. -/
def Gap.between (σ τ : Store) : Gap where
  tables := σ.tables.size
  moreTables := τ.tables.size - σ.tables.size
  registries := σ.registries.size
  moreRegistries := τ.registries.size - σ.registries.size

theorem Gap.passes_same {p : Pass} (h : p.Rooted σ) :
    (between σ τ).relocation.Passes p p :=
  ⟨List.forall₂_same.mpr fun id hid => shift_of_lt (h.scope id hid), shift_of_lt h.registry⟩

/-- What is rooted in the first store is the same for both runs. -/
theorem Gap.fixes {t : Table} (h : t.Rooted σ) : (between σ τ).relocation.Fixes t where
  slots s hs := by
    obtain ⟨hhome, hvalue⟩ := h.slots s hs
    refine ⟨⟨rfl, rfl, rfl, ?_⟩, rfl, hvalue⟩
    cases hv : s.var.home with
    | table id => exact .table (shift_of_lt (hhome id hv))
    | block n => exact .block
  routines r hr := by
    obtain ⟨hhost, hpass, hliterals⟩ := h.routines r hr
    have acts (action : HostAction) (traced : Bool)
        (ha : r.implementation? = some (.host action traced)) :
        action.Within (between σ τ).relocation.sort fun id =>
          (between σ τ).relocation.tables id id :=
      fun vs hvs => (hhost action traced ha _ (Nat.le_refl _) vs hvs).mono fun _ => shift_of_lt
    refine .same acts fun m p hm => ⟨passes_same (hpass m p hm), fun n hn => ?_⟩
    unfold Node.Fits
    split
    · exact hliterals m p hm _ _ hn
    · exact .inr rfl
    · trivial

theorem size_tables_between (h : σ.Continues τ) :
    τ.tables.size = σ.tables.size + (Gap.between σ τ).moreTables :=
  (Nat.add_sub_of_le h.keeps.size).symm

theorem size_registries_between (h : σ.Continues τ) :
    τ.registries.size = σ.registries.size + (Gap.between σ τ).moreRegistries :=
  (Nat.add_sub_of_le h.moreRegistries).symm

/-- Tables that correspond are the same in the beginning: both stores have it, or neither does. -/
theorem exists_same_table (hσ : σ.Rooted) (h : σ.Continues τ) {i j : TableId}
    (hij : (Gap.between σ τ).relocation.tables i j) :
    ∃ t, σ.table i = t ∧ τ.table j = t ∧ (Gap.between σ τ).relocation.Fixes t := by
  by_cases hi : σ.HasTable i
  · cases (shift_of_lt hi).symm.trans hij
    exact ⟨_, rfl, h.keeps.table i hi, Gap.fixes (hσ.tables i)⟩
  · have hj : ¬τ.HasTable j :=
      (Held.hasTable_iff (Nat.le_refl _) (size_tables_between h) hij).not.mp hi
    exact ⟨_, Store.table_of_not_hasTable hi, Store.table_of_not_hasTable hj,
      Gap.fixes (Table.rooted_empty σ)⟩

theorem rel_type? (hσ : σ.Rooted) (h : σ.Continues τ) {r r' : RegistryId}
    (hr : (Gap.between σ τ).relocation.registries r r') (n : Text) :
    Option.Rel (fun t t' : Ty => (Gap.between σ τ).relocation.tables t.members t'.members)
      (σ.type? r n) (τ.type? r' n) := by
  by_cases hlt : r < σ.registries.size
  · cases (shift_of_lt hlt).symm.trans hr
    rw [Store.type?, Store.type?, h.registries r hlt]
    cases ht : (σ.registry r).find? fun t => t.name == n with
    | none => exact .none
    | some t => exact .some (shift_of_lt (hσ.types r t (List.mem_of_find?_eq_some ht)))
  · have hlt' : ¬r' < τ.registries.size := by
      cases hr
      rw [size_registries_between h]
      exact (shift_lt_iff (Nat.le_refl _)).not.mpr hlt
    rw [Store.type?, Store.type?, Store.registry_of_le (Nat.le_of_not_lt hlt),
      Store.registry_of_le (Nat.le_of_not_lt hlt')]
    exact .none

/-- A rooted store beside one that continues it. -/
theorem held_between (hσ : σ.Rooted) (h : σ.Continues τ) : Held (Gap.between σ τ) σ τ := by
  refine ⟨⟨Held.hasTable_iff (Nat.le_refl _) (size_tables_between h), fun {i j} hij => ?_,
    fun {i j} hij n count => ?_, rel_type? hσ h, h.output, h.encoding⟩, Nat.le_refl _,
    size_tables_between h, Nat.le_refl _, size_registries_between h⟩
  · obtain ⟨t, hi, hj, ht⟩ := exists_same_table hσ h hij
    rw [hi, hj]
    exact ht.rel_slots
  · obtain ⟨t, hi, hj, ht⟩ := exists_same_table hσ h hij
    rw [hi, hj]
    exact ht.rel_routine? n count

/-! ### New passes -/

/-- New tables have numbers that correspond. -/
theorem Held.newTable (h : Held g σ τ) :
    Held g σ.newTable.2 τ.newTable.2 ∧ g.relocation.tables σ.newTable.1 τ.newTable.1 := by
  have htables : g.tables ≤ σ.newTable.2.tables.size :=
    Nat.le_trans h.tables σ.keeps_newTable.size
  have hmore : τ.newTable.2.tables.size = σ.newTable.2.tables.size + g.moreTables := by
    simp only [Store.newTable, Array.size_push, h.moreTables]
    omega
  refine ⟨⟨⟨hasTable_iff htables hmore, fun {i j} hij => ?_, fun {i j} hij => ?_, h.stores.types,
    h.stores.output, h.stores.encoding⟩, htables, hmore, h.registries, h.moreRegistries⟩, ?_⟩
  · rw [Store.table_newTable_eq, Store.table_newTable_eq]
    exact h.stores.slots hij
  · rw [Store.table_newTable_eq, Store.table_newTable_eq]
    exact h.stores.routines hij
  · exact (shift_of_le h.tables).trans h.moreTables.symm

/-- Types of the same name whose members are in tables that correspond. -/
def Types (g : Gap) (t t' : Ty) : Prop :=
  t'.name = t.name ∧ g.relocation.tables t.members t'.members

theorem Held.newBuiltins (h : Held g σ τ) (bs : List Builtin) :
    Held g (Store.newBuiltins bs σ).2 (Store.newBuiltins bs τ).2 ∧
      List.Forall₂ (Types g) (Store.newBuiltins bs σ).1 (Store.newBuiltins bs τ).1 := by
  induction bs generalizing σ τ with
  | nil => exact ⟨h, .nil⟩
  | cons b bs ih =>
    obtain ⟨hnew, hid⟩ := h.newTable
    obtain ⟨hrest, htypes⟩ := ih hnew
    exact ⟨hrest, .cons ⟨rfl, hid⟩ htypes⟩

/-- Registries with types that correspond, the last one being new. -/
theorem Held.addRegistry (h : Held g σ τ) {ts ts' : List Ty} (hts : List.Forall₂ (Types g) ts ts') :
    Held g { σ with registries := σ.registries.push ts }
      { τ with registries := τ.registries.push ts' } where
  stores := by
    refine ⟨h.stores.hasTable, h.stores.slots, h.stores.routines, fun {r r'} hr n => ?_,
      h.stores.output, h.stores.encoding⟩
    have hlast : r' = τ.registries.size ↔ r = σ.registries.size := by
      cases hr
      rw [h.moreRegistries, shift_eq_iff h.registries]
    unfold Store.type?
    rw [Store.registry_push, Store.registry_push]
    by_cases hr' : r = σ.registries.size
    · rw [if_pos hr', if_pos (hlast.mpr hr')]
      have hfind := forall₂_find? (p := fun t : Ty => t.name == n) (q := fun t => t.name == n)
        (fun {t t'} ht => by rw [ht.1]) hts
      generalize ts.find? _ = o at hfind
      generalize ts'.find? _ = o' at hfind
      cases hfind with
      | none => exact .none
      | some ht => exact .some ht.2
    · rw [if_neg hr', if_neg (hlast.not.mpr hr')]
      exact h.stores.types hr n
  tables := h.tables
  moreTables := h.moreTables
  registries := by
    rw [Array.size_push]
    exact Nat.le_succ_of_le h.registries
  moreRegistries := by
    simp only [Array.size_push, h.moreRegistries]
    omega

theorem Held.newRegistry (h : Held g σ τ) :
    Held g σ.newRegistry.2 τ.newRegistry.2 ∧
      g.relocation.registries σ.newRegistry.1 τ.newRegistry.1 := by
  obtain ⟨hbuiltins, htypes⟩ := h.newBuiltins Builtin.all
  refine ⟨hbuiltins.addRegistry htypes, ?_⟩
  exact (shift_of_le hbuiltins.registries).trans hbuiltins.moreRegistries.symm

/-- Functions that correspond are declared in tables that do. -/
theorem Held.addRoutine (h : Held g σ τ) {i j : TableId} (hij : g.relocation.tables i j)
    {r r' : Routine} (hr : g.relocation.Routines r r') :
    Held g (σ.modifyTable i fun t => t.addRoutine r)
      (τ.modifyTable j fun t => t.addRoutine r') where
  stores := h.stores.modifyTable hij (fun hslots => hslots) fun _ _ => hr.addRoutine
  tables := by simpa [Store.modifyTable] using h.tables
  moreTables := by simpa [Store.modifyTable] using h.moreTables
  registries := h.registries
  moreRegistries := h.moreRegistries

/-- The host has been there from the start, so it has the same numbers in both runs. -/
structure Gap.Knows (g : Gap) (host : Host) : Prop where
  scope : ∀ scope ∈ host.parent, ∀ id ∈ scope.tables, id < g.tables
  registry : ∀ id ∈ host.registry, id < g.registries

theorem Held.registryOr (h : Held g σ τ) {host : Host} (hhost : g.Knows host) :
    Held g (σ.registryOr host.registry).2 (τ.registryOr host.registry).2 ∧
      g.relocation.registries (σ.registryOr host.registry).1 (τ.registryOr host.registry).1 := by
  cases hr : host.registry with
  | none => exact h.newRegistry
  | some id => exact ⟨h, shift_of_lt (hhost.registry id hr)⟩

/-- New passes correspond. -/
theorem Held.evaluator (h : Held g σ τ) {host : Host} (hhost : g.Knows host) :
    Held g (host.evaluator σ).2 (host.evaluator τ).2 ∧
      g.relocation.Passes (host.evaluator σ).1 (host.evaluator τ).1 := by
  obtain ⟨hregistry, hid⟩ := h.registryOr hhost
  rcases he : σ.registryOr host.registry with ⟨id, ρ⟩
  rcases he' : τ.registryOr host.registry with ⟨id', υ⟩
  rw [he, he'] at hregistry hid
  obtain ⟨hnew, htop⟩ := hregistry.newTable
  unfold Host.evaluator
  rw [Store.newPass_eq he, Store.newPass_eq he']
  have added : g.relocation.Routines ⟨printer ρ.newTable.1, some .print⟩
      ⟨printer υ.newTable.1, some .print⟩ := ⟨rfl, rfl, .print⟩
  have houter : List.Forall₂ g.relocation.tables ((host.parent.map Scope.tables).getD [])
      ((host.parent.map Scope.tables).getD []) := by
    refine List.forall₂_same.mpr fun id hid => shift_of_lt ?_
    cases hp : host.parent with
    | none =>
      rw [hp] at hid
      cases hid
    | some scope =>
      rw [hp] at hid
      exact hhost.scope scope hp id hid
  exact ⟨hnew.addRoutine htop added, ⟨.cons htop houter, hid⟩⟩

end Beside

end Parlance
