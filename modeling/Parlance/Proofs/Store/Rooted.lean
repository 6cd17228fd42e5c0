/-
Stores that refer to nothing outside of them.

Whatever a store holds refers to tables and registries by their numbers: a variable to the table it
lives in, an object and a type to that of their members, a function that runs a method to the scope
of the pass that has declared it, a function of the host to the tables that it knows.  A store is
rooted if all of these are there.  The first store is, and new tables, new registries, declarations
and new values keep it so, as long as what they bring in refers to what is there.

Only the sizes of the store matter to what a value or a function may refer to, so all of it stays
rooted in a store with more tables and more registries.
-/
import Parlance.Program
import Parlance.Proofs.Store.Deeds
import Parlance.Proofs.Store.Variables
import Parlance.Syntax.Traversal

namespace Parlance

/-! ### What may be referred to -/

/-- An object has its members in a table of the store. -/
def Value.Rooted (σ : Store) (v : Value) : Prop :=
  ∀ o, v = .object o → σ.HasTable o.members

/-- The variable lives in a table of the store if it lives in a table, and its value is rooted. -/
structure Slot.Rooted (σ : Store) (s : Slot) : Prop where
  home : ∀ id, s.var.home = .table id → σ.HasTable id
  value : s.value.Rooted σ

/-- The scope and the registry of the pass are there. -/
structure Pass.Rooted (σ : Store) (p : Pass) : Prop where
  scope : ∀ id ∈ p.scope.tables, σ.HasTable id
  registry : p.registry < σ.registries.size

/-- The function of the host knows no tables but those of the store and those it is handed: in the
store and in any with more tables it stays within what is there, if its arguments do. -/
def HostAction.Rooted (σ : Store) (action : HostAction) : Prop :=
  ∀ n, σ.tables.size ≤ n → action.Within (fun v => ∀ o, v = .object o → o.members < n) (· < n)

/-- A function of the host is rooted, and so are the pass and the literals of a method that the
function runs. -/
structure Routine.Rooted (σ : Store) (r : Routine) : Prop where
  host : ∀ action traced, r.implementation? = some (.host action traced) → action.Rooted σ
  pass : ∀ m p, r.implementation? = some (.method m p) → p.Rooted σ
  literals : ∀ m p, r.implementation? = some (.method m p) →
    ∀ v t, .expr (.literal v t) ∈ walkStmts m.body → v.Rooted σ

/-- What the table binds is rooted. -/
structure Table.Rooted (σ : Store) (t : Table) : Prop where
  slots : ∀ s ∈ t.slots, s.Rooted σ
  routines : ∀ r ∈ t.routines, r.Rooted σ

/-- The store refers to nothing outside of it. -/
structure Store.Rooted (σ : Store) : Prop where
  tables : ∀ id, (σ.table id).Rooted σ
  types : ∀ id, ∀ t ∈ σ.registry id, σ.HasTable t.members

/-- The store has the scope and the registry of the host, if it gives any. -/
structure Host.Rooted (σ : Store) (host : Host) : Prop where
  scope : ∀ scope ∈ host.parent, ∀ id ∈ scope.tables, σ.HasTable id
  registry : ∀ id ∈ host.registry, id < σ.registries.size

/-- A function that neither is one of the host nor runs a method. -/
theorem Routine.rooted_of_plain {σ : Store} {r : Routine}
    (hhost : ∀ action traced, r.implementation? ≠ some (.host action traced))
    (hmethod : ∀ m p, r.implementation? ≠ some (.method m p)) : r.Rooted σ :=
  ⟨fun action traced h => (hhost action traced h).elim, fun m p h => (hmethod m p h).elim,
    fun m p h => (hmethod m p h).elim⟩

theorem Table.rooted_empty (σ : Store) : empty.Rooted σ :=
  ⟨List.forall_mem_nil _, List.forall_mem_nil _⟩

theorem Store.rooted_opened (e : Encoding) : (opened e).Rooted := by
  refine ⟨fun id => ?_, fun id t ht => ?_⟩
  · exact table_opened e id ▸ Table.rooted_empty _
  · simp [registry, opened] at ht

/-! ### Larger stores -/

/-- The second store has at least as many tables and registries. -/
structure Store.NoLarger (σ τ : Store) : Prop where
  tables : σ.tables.size ≤ τ.tables.size
  registries : σ.registries.size ≤ τ.registries.size

section Larger

variable {σ τ : Store}

theorem Store.NoLarger.hasTable (h : σ.NoLarger τ) {id : TableId} (hid : σ.HasTable id) :
    τ.HasTable id :=
  Nat.lt_of_lt_of_le hid h.tables

theorem Slot.Rooted.mono {s : Slot} (hs : s.Rooted σ) (h : σ.NoLarger τ) : s.Rooted τ :=
  ⟨fun id hid => h.hasTable (hs.home id hid), fun o ho => h.hasTable (hs.value o ho)⟩

theorem Pass.Rooted.mono {p : Pass} (hp : p.Rooted σ) (h : σ.NoLarger τ) : p.Rooted τ :=
  ⟨fun id hid => h.hasTable (hp.scope id hid), Nat.lt_of_lt_of_le hp.registry h.registries⟩

theorem Routine.Rooted.mono {r : Routine} (hr : r.Rooted σ) (h : σ.NoLarger τ) : r.Rooted τ where
  host action traced ha n hn := hr.host action traced ha n (Nat.le_trans h.tables hn)
  pass m p hm := (hr.pass m p hm).mono h
  literals m p hm v t hv o ho := h.hasTable (hr.literals m p hm v t hv o ho)

theorem Table.Rooted.mono {t : Table} (ht : t.Rooted σ) (h : σ.NoLarger τ) : t.Rooted τ :=
  ⟨fun s hs => (ht.slots s hs).mono h, fun r hr => (ht.routines r hr).mono h⟩

theorem Host.Rooted.mono {host : Host} (hhost : host.Rooted σ) (h : σ.NoLarger τ) :
    host.Rooted τ where
  scope scope hs id hid := h.hasTable (hhost.scope scope hs id hid)
  registry id hid := Nat.lt_of_lt_of_le (hhost.registry id hid) h.registries

theorem Table.Rooted.addSlot {t : Table} (ht : t.Rooted σ) {s : Slot} (hs : s.Rooted σ) :
    (t.addSlot s).Rooted σ :=
  ⟨List.forall_mem_append.mpr ⟨ht.slots, List.forall_mem_singleton.mpr hs⟩, ht.routines⟩

theorem Table.Rooted.addRoutine {t : Table} (ht : t.Rooted σ) {r : Routine} (hr : r.Rooted σ) :
    (t.addRoutine r).Rooted σ :=
  ⟨ht.slots, List.forall_mem_append.mpr ⟨ht.routines, List.forall_mem_singleton.mpr hr⟩⟩

end Larger

/-! ### What keeps a store rooted -/

namespace Store

variable {σ : Store}

/-- A table is changed, and what it binds then is rooted as well. -/
theorem Rooted.modifyTable (h : σ.Rooted) (id : TableId) {f : Table → Table}
    (hf : (f (σ.table id)).Rooted σ) : (σ.modifyTable id f).Rooted := by
  have hsize : σ.NoLarger (σ.modifyTable id f) :=
    ⟨by simp [Store.modifyTable], Nat.le_refl _⟩
  refine ⟨fun other => ?_, fun r t ht => hsize.hasTable (h.types r t ht)⟩
  rcases σ.table_modifyTable id other f with he | ⟨-, -, he⟩
  · exact he ▸ (h.tables other).mono hsize
  · exact he ▸ hf.mono hsize

theorem Rooted.newScope (h : σ.Rooted) (parent : Option Scope) :
    (σ.newScope parent).2.Rooted := by
  have hsize : σ.NoLarger (σ.newScope parent).2 := ⟨σ.keeps_newTable.size, Nat.le_refl _⟩
  refine ⟨fun id => ?_, fun r t ht => hsize.hasTable (h.types r t ht)⟩
  exact σ.table_newTable_eq id ▸ (h.tables id).mono hsize

theorem noLarger_newPass (σ : Store) (parent : Option Scope) (registry : Option RegistryId)
    (print? : Option Implementation) : σ.NoLarger (σ.newPass parent registry print?).2 :=
  ⟨(σ.newPass_spec _ _ _).keeps.size, σ.size_registries_newPass _ _ _⟩

/-- The types that a new pass finds were there before, or their members are in new tables. -/
theorem Rooted.types_newPass (h : σ.Rooted) (parent : Option Scope) (registry : Option RegistryId)
    (print? : Option Implementation) (r : RegistryId) :
    ∀ t ∈ (σ.newPass parent registry print?).2.registry r,
      (σ.newPass parent registry print?).2.HasTable t.members := by
  intro t ht
  have hold : t ∈ σ.registry r → (σ.newPass parent registry print?).2.HasTable t.members :=
    fun ht => (σ.noLarger_newPass _ _ _).hasTable (h.types r t ht)
  cases registry with
  | some id => exact hold ht
  | none =>
    have hregistries := registries_newBuiltins Builtin.all σ
    by_cases hr : r = (newBuiltins Builtin.all σ).2.registries.size
    · subst hr
      exact ((σ.newPass_registry parent print?).1.members t ht).1
    · have hpush := (newBuiltins Builtin.all σ).2.registry_push (newBuiltins Builtin.all σ).1 r
      rw [if_neg hr] at hpush
      have hsame : σ.registry r = (newBuiltins Builtin.all σ).2.registry r := by
        rw [registry, registry, hregistries]
      exact hold (hsame ▸ hpush ▸ ht)

/-- A new pass that does nothing but print is rooted, and so is its store. -/
theorem Rooted.newPass (h : σ.Rooted) {host : Host} (hhost : host.Rooted σ)
    {print? : Option Implementation} (hprint : ∀ i ∈ print?, i = .print) :
    (σ.newPass host.parent host.registry print?).2.Rooted ∧
      (σ.newPass host.parent host.registry print?).1.Rooted
        (σ.newPass host.parent host.registry print?).2 := by
  have hnew := σ.newPass_spec host.parent host.registry print?
  have hsize := σ.noLarger_newPass host.parent host.registry print?
  refine ⟨⟨fun id => ?_, h.types_newPass _ _ _⟩, ⟨fun id hid => ?_, ?_⟩⟩
  · by_cases hid : id = (σ.newPass host.parent host.registry print?).1.scope.top
    · rw [hid, hnew.table]
      refine ⟨List.forall_mem_nil _, List.forall_mem_singleton.mpr (Routine.rooted_of_plain ?_ ?_)⟩
      · intro v traced hi
        cases hprint _ hi
      · intro m p hi
        cases hprint _ hi
    · rw [hnew.other id hid]
      exact (h.tables id).mono hsize
  · rw [Scope.tables, hnew.outer] at hid
    rcases List.mem_cons.mp hid with rfl | hid
    · exact hnew.top
    · cases hp : host.parent with
      | none =>
        rw [hp] at hid
        cases hid
      | some scope =>
        rw [hp] at hid
        exact hp ▸ hsize.hasTable (hhost.scope scope hp id hid)
  · cases hr : host.registry with
    | some id => exact hhost.registry id hr
    | none =>
      change _ < ((newBuiltins Builtin.all σ).2.registries.push _).size
      rw [Array.size_push]
      exact Nat.lt_succ_self _

end Store

end Parlance
