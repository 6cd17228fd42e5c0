/-
Registries as a host works with them.

A member table is reached in three ways: through a registry's entry for a name, through a built-in
type as it is known outside every registry, and by whoever has made the table on its own.  A
declaration goes to the one table that its way leads to, and every other table stays as it is.  So
registries are isolated as far as their entries lead to different tables.

They do but where the host has made a table on its own and registered two names with it.  What
carries this is where tables come from: an entry has a table of its own, younger than all before
it, unless it was given one, and the built-in names have theirs from the time the registry was made.
-/
import Parlance.Proofs.Store.Bindings

namespace Parlance

namespace Store

variable {σ τ : Store} {r : RegistryId} {id : TableId}

/-! ### Entries -/

theorem registries_declare (h : σ.HasTable id) (d : Declaration) :
    (σ.declare id d).registries = σ.registries := by
  rcases declare_cases h d with heq | ⟨_, _, hgains⟩
  · rw [heq]
  · exact hgains.registries

theorem size_declare (h : σ.HasTable id) (d : Declaration) :
    (σ.declare id d).tables.size = σ.tables.size := by
  rcases declare_cases h d with heq | ⟨_, _, hgains⟩
  · rw [heq]
  · exact hgains.size

/-- A declaration in a table leaves all others. -/
theorem table_declare_of_ne (h : σ.HasTable id) (d : Declaration) {other : TableId}
    (ho : other ≠ id) : (σ.declare id d).table other = σ.table other := by
  rcases declare_cases h d with heq | ⟨_, _, hgains⟩
  · rw [heq]
  · exact hgains.other other ho

/-- Registering fails for a name that is taken, and else adds an entry with the table it is given,
or with a new one. -/
theorem register_cases (σ : Store) (r : RegistryId) (name : Text) (targetName : Option Text)
    (members : Option TableId) :
    (∃ t, σ.type? r name = some t ∧
      σ.register r name targetName members = .error (.duplicateType name)) ∨
    σ.type? r name = none ∧ ∃ t τ, σ.register r name targetName members = .ok (t, τ) ∧
      t.name = name ∧ t.members = members.getD σ.tables.size ∧
      τ.registries = σ.registries.modify r (· ++ [t]) ∧ (∀ id, τ.table id = σ.table id) ∧
      τ.tables.size = if members.isSome then σ.tables.size else σ.tables.size + 1 := by
  unfold register
  cases ht : σ.type? r name with
  | some t => exact .inl ⟨t, rfl, rfl⟩
  | none =>
    cases members with
    | some id => exact .inr ⟨rfl, _, _, rfl, rfl, rfl, rfl, fun _ => rfl, rfl⟩
    | none =>
      exact .inr ⟨rfl, _, _, rfl, rfl, rfl, rfl, σ.table_newTable_eq, by simp⟩

theorem registry_modify (hr : r < σ.registries.size) {f : List Ty → List Ty}
    (h : τ.registries = σ.registries.modify r f) (other : RegistryId) :
    τ.registry other = if other = r then f (σ.registry r) else σ.registry other := by
  rw [registry, h]
  by_cases ho : other = r
  · subst ho
    simp [registry, Array.getD_eq_getD_getElem?, Array.getElem_modify, hr]
  · simp [registry, Array.getD_eq_getD_getElem?, Array.getElem?_modify, ho, Ne.symm ho]

/-- The entries of a new registry, one for each built-in name, in tables one after the other. -/
theorem newBuiltins_all (σ : Store) :
    (newBuiltins Builtin.all σ).1
        = Builtin.all.map (fun b => ⟨b.name, b.targetName, σ.tables.size + b.index⟩) ∧
      (newBuiltins Builtin.all σ).2.tables.size = σ.tables.size + 9 := by
  simp [newBuiltins, newTable, Builtin.all, Builtin.index]

theorem newRegistry_entries (σ : Store) :
    (∀ r, σ.newRegistry.2.registry r = if r = σ.registries.size then
      Builtin.all.map (fun b => ⟨b.name, b.targetName, σ.tables.size + b.index⟩)
      else σ.registry r) ∧
    σ.newRegistry.2.tables.size = σ.tables.size + 9 ∧
    σ.newRegistry.2.registries.size = σ.registries.size + 1 := by
  obtain ⟨hall, hsize⟩ := σ.newBuiltins_all
  have hold := registries_newBuiltins Builtin.all σ
  unfold newRegistry
  generalize newBuiltins Builtin.all σ = new at hall hsize hold
  obtain ⟨types, ρ⟩ := new
  dsimp only at hall hold
  refine ⟨fun r => (ρ.registry_push types r).trans ?_, hsize, ?_⟩
  · rw [hold, hall, registry, hold]
    rfl
  · simp [← hold]

/-- A registry has the type of a name when an entry bears it, if no two entries bear one name. -/
theorem type?_of_mem {t : Ty} (h : (σ.registry r).Pairwise fun a b => a.name ≠ b.name)
    (ht : t ∈ σ.registry r) : σ.type? r t.name = some t := by
  unfold type?
  generalize σ.registry r = ts at h ht
  induction h with
  | nil => cases ht
  | cons hne _ ih =>
    rcases List.mem_cons.mp ht with rfl | ht
    · simp
    · rw [List.find?_cons_of_neg (by simpa using hne t ht)]
      exact ih ht

theorem mem_of_type? {name : Text} {t : Ty} (h : σ.type? r name = some t) :
    t ∈ σ.registry r ∧ t.name = name :=
  ⟨List.mem_of_find?_eq_some h, by simpa using List.find?_some h⟩

theorem name_ne_of_type?_none {name : Text} (h : σ.type? r name = none) :
    ∀ t ∈ σ.registry r, t.name ≠ name := by
  simpa [type?] using h

end Store

/-! ### What a host does -/

/-- A store, and the member tables that have been made in it on their own. -/
structure Bureau where
  store : Store
  own : List TableId

namespace Bureau

/-- A way to a member table. -/
inductive Way
  /-- Through the entry of a registry. -/
  | entry (r : RegistryId) (name : Text)
  /-- Through a built-in type outside every registry. -/
  | constant (b : Builtin)
  /-- Straight to a table that has been made on its own. -/
  | own (id : TableId)
deriving DecidableEq

/-- The table it leads to, if to any. -/
def Way.table? (w : Bureau) : Way → Option TableId
  | entry r name => (w.store.type? r name).map Ty.members
  | constant b => some b.type.members
  | own id => if id ∈ w.own then some id else none

/-- Something that is done with registries and member tables. -/
inductive Operation
  | newRegistry
  | newTable
  | register (r : RegistryId) (name : Text) (targetName : Option Text) (members : Option TableId)
  | declare (way : Way) (d : Store.Declaration)

/-- It is about registries that there are, tables that have been made on their own, and ways that
lead somewhere. -/
def Operation.Possible (w : Bureau) : Operation → Prop
  | newRegistry | newTable => True
  | register r _ _ members => r < w.store.registries.size ∧ ∀ id ∈ members, id ∈ w.own
  | declare way _ => ∃ id, way.table? w = some id

/-- What it leaves. -/
def Operation.apply (w : Bureau) : Operation → Bureau
  | newRegistry => { w with store := w.store.newRegistry.2 }
  | newTable => ⟨w.store.newTable.2, w.store.newTable.1 :: w.own⟩
  | register r name targetName members =>
    { w with store := w.store.declared (w.store.register r name targetName members) }
  | declare way d =>
    match way.table? w with
    | some id => { w with store := w.store.declare id d }
    | none => w

/-- The first bureau: no registry yet, and no table but the reserved ones. -/
def opened : Bureau := ⟨.initial, []⟩

/-- Things done one after the other, from the first bureau to the second. -/
inductive Runs (v : Bureau) : List Operation → Bureau → Prop
  | nil : Runs v [] v
  | snoc {ops : List Operation} {w : Bureau} (h : Runs v ops w) (op : Operation)
      (hop : op.Possible w) : Runs v (ops ++ [op]) (op.apply w)

/-- The host has registered the name with the table. -/
def Given (ops : List Operation) (r : RegistryId) (name : Text) (id : TableId) : Prop :=
  ∃ targetName, .register r name targetName (some id) ∈ ops

/-- What holds after these operations. Entries have tables of their own, but for those the host has
been asked to share; built-in names have entries of the first kind. -/
structure Sound (ops : List Operation) (w : Bureau) : Prop where
  reserved : 9 ≤ w.store.tables.size
  ownTables : ∀ id ∈ w.own, 9 ≤ id ∧ w.store.HasTable id
  entryTables : ∀ r, ∀ t ∈ w.store.registry r, 9 ≤ t.members ∧ w.store.HasTable t.members
  names : ∀ r, (w.store.registry r).Pairwise fun a b => a.name ≠ b.name
  given : ∀ r, ∀ t ∈ w.store.registry r, t.members ∈ w.own → Given ops r t.name t.members
  apart : ∀ r t r' t', t ∈ w.store.registry r → t' ∈ w.store.registry r' → t.members ∉ w.own →
    t'.members = t.members → r' = r ∧ t'.name = t.name
  builtins : ∀ r < w.store.registries.size, ∀ b : Builtin, ∃ t ∈ w.store.registry r,
    t.name = b.name ∧ t.targetName = b.targetName ∧ t.members ∉ w.own

/-- The second bureau has all entries of the first. -/
structure Widens (v w : Bureau) : Prop where
  size : v.store.registries.size ≤ w.store.registries.size
  registry : ∀ r, v.store.registry r <+: w.store.registry r

theorem Widens.refl (w : Bureau) : w.Widens w :=
  ⟨Nat.le_refl _, fun _ => List.prefix_refl _⟩

theorem Widens.trans {u v w : Bureau} (h : u.Widens v) (h' : v.Widens w) : u.Widens w :=
  ⟨Nat.le_trans h.size h'.size, fun r => (h.registry r).trans (h'.registry r)⟩

/-- What a name is registered for, it stays registered for. -/
theorem Widens.type? {v w : Bureau} (h : v.Widens w) {r : RegistryId} {name : Text} {t : Ty}
    (ht : v.store.type? r name = some t) : w.store.type? r name = some t := by
  obtain ⟨more, hmore⟩ := h.registry r
  unfold Store.type? at ht ⊢
  rw [← hmore, List.find?_append, ht, Option.some_or]

theorem sound_opened : Sound [] opened := by
  have hnone (r : RegistryId) : opened.store.registry r = [] := Store.registry_of_le (Nat.zero_le r)
  refine ⟨by decide, nofun, ?_, ?_, ?_, ?_, nofun⟩ <;> simp [hnone]

variable {v w : Bureau} {ops : List Operation}

theorem Given.more {r : RegistryId} {name : Text} {id : TableId} (h : Given ops r name id)
    (op : Operation) : Given (ops ++ [op]) r name id :=
  h.imp fun _ hmem => List.mem_append_left _ hmem

/-- Nothing that is asked of a bureau is about its registries when only tables change. -/
theorem Sound.of_registries (h : Sound ops w) {σ : Store} (op : Operation)
    (hregistries : σ.registries = w.store.registries)
    (hsize : w.store.tables.size ≤ σ.tables.size) :
    Sound (ops ++ [op]) ⟨σ, w.own⟩ := by
  have hregistry (r : RegistryId) : σ.registry r = w.store.registry r := by
    rw [Store.registry, hregistries]
    rfl
  refine ⟨Nat.le_trans h.reserved hsize,
    fun id hid => (h.ownTables id hid).imp_right (Nat.lt_of_lt_of_le · hsize), ?_, ?_, ?_, ?_, ?_⟩
  · intro r t ht
    exact (h.entryTables r t (hregistry r ▸ ht)).imp_right (Nat.lt_of_lt_of_le · hsize)
  · intro r
    exact hregistry r ▸ h.names r
  · intro r t ht hown
    exact (h.given r t (hregistry r ▸ ht) hown).more op
  · intro r t r' t' ht ht'
    exact h.apart r t r' t' (hregistry r ▸ ht) (hregistry r' ▸ ht')
  · intro r hr
    rw [hregistries] at hr
    exact hregistry r ▸ h.builtins r hr

theorem Sound.newTable (h : Sound ops w) :
    Sound (ops ++ [.newTable]) (Operation.newTable.apply w) := by
  have hsize := w.store.keeps_newTable.size
  have hrest := h.of_registries .newTable (σ := w.store.newTable.2) rfl hsize
  -- No entry has the new table, which was not there before.
  have hnot {r t} (ht : t ∈ w.store.registry r) (hmem : t.members ∈ w.store.newTable.1 :: w.own) :
      t.members ∈ w.own := by
    rcases List.mem_cons.mp hmem with heq | hmem
    · exact (w.store.not_hasTable_newTable (heq ▸ (h.entryTables r t ht).2)).elim
    · exact hmem
  refine ⟨hrest.reserved, List.forall_mem_cons.mpr ⟨⟨h.reserved, w.store.hasTable_newTable⟩,
    hrest.ownTables⟩, hrest.entryTables, hrest.names, ?_, ?_, ?_⟩
  · intro r t ht hmem
    exact hrest.given r t ht (hnot ht hmem)
  · intro r t r' t' ht ht' hown
    exact h.apart r t r' t' ht ht' fun hmem => hown (List.mem_cons_of_mem _ hmem)
  · intro r hr b
    obtain ⟨t, ht, hname, htarget, hown⟩ := h.builtins r hr b
    exact ⟨t, ht, hname, htarget, fun hmem => hown (hnot ht hmem)⟩

/-- New entries keep all in order that have a table they were given, or one that was not there
before, and no two of them the same. -/
theorem Sound.of_entries (h : Sound ops w) {σ : Store} {op : Operation}
    {P : RegistryId → Ty → Prop} (hsize : w.store.tables.size ≤ σ.tables.size)
    (hentry : ∀ q, ∀ u ∈ σ.registry q, u ∈ w.store.registry q ∨ P q u)
    (hnames : ∀ q, (σ.registry q).Pairwise fun a b => a.name ≠ b.name)
    (hnew : ∀ q u, P q u → σ.HasTable u.members ∧ (w.store.tables.size ≤ u.members ∨
      u.members ∈ w.own ∧ Given (ops ++ [op]) q u.name u.members))
    (hapart : ∀ q u q' u', P q u → P q' u' → u.members ∉ w.own → u'.members = u.members →
      q' = q ∧ u'.name = u.name)
    (hbuiltins : ∀ q < σ.registries.size, ∀ b : Builtin, ∃ t ∈ σ.registry q,
      t.name = b.name ∧ t.targetName = b.targetName ∧ t.members ∉ w.own) :
    Sound (ops ++ [op]) ⟨σ, w.own⟩ where
  reserved := Nat.le_trans h.reserved hsize
  ownTables id hid := (h.ownTables id hid).imp_right (Nat.lt_of_lt_of_le · hsize)
  names := hnames
  builtins := hbuiltins
  entryTables q u hu := by
    rcases hentry q u hu with hold | hu
    · exact (h.entryTables q u hold).imp_right (Nat.lt_of_lt_of_le · hsize)
    · obtain ⟨hhas, hfresh | ⟨hown, -⟩⟩ := hnew q u hu
      · exact ⟨Nat.le_trans h.reserved hfresh, hhas⟩
      · exact ⟨(h.ownTables _ hown).1, hhas⟩
  given q u hu hown := by
    rcases hentry q u hu with hold | hu
    · exact (h.given q u hold hown).more op
    · obtain ⟨-, hfresh | ⟨-, hgiven⟩⟩ := hnew q u hu
      · exact (Nat.not_lt_of_le hfresh (h.ownTables _ hown).2).elim
      · exact hgiven
  apart q u q' u' hu hu' hown heq := by
    -- A table that was there before and one that was not are different.
    have hmixed {q u q' u'} (hold : u ∈ w.store.registry q) (hu' : P q' u')
        (hown : u'.members ∉ w.own) : u'.members ≠ u.members := by
      obtain ⟨-, hfresh | ⟨hmem, -⟩⟩ := hnew q' u' hu'
      · exact fun heq => Nat.not_lt_of_le hfresh (heq ▸ (h.entryTables q u hold).2)
      · exact (hown hmem).elim
    rcases hentry q u hu with hold | hu <;> rcases hentry q' u' hu' with hold' | hu'
    · exact h.apart q u q' u' hold hold' hown heq
    · exact (hmixed hold hu' (heq ▸ hown) heq).elim
    · exact (hmixed hold' hu hown heq.symm).elim
    · exact hapart q u q' u' hu hu' hown heq

/-- A new registry has nine entries, with tables that were not there before. -/
theorem Sound.newRegistry (h : Sound ops w) :
    Sound (ops ++ [.newRegistry]) (Operation.newRegistry.apply w) := by
  change Sound _ ⟨w.store.newRegistry.2, w.own⟩
  obtain ⟨hregistry, hsize, hregistries⟩ := w.store.newRegistry_entries
  generalize w.store.newRegistry.2 = σ at hregistry hsize hregistries
  refine h.of_entries (P := fun q u => q = w.store.registries.size ∧ ∃ b : Builtin,
    u = ⟨b.name, b.targetName, w.store.tables.size + b.index⟩) (by omega) ?_ ?_ ?_ ?_ ?_
  · intro q u hu
    rw [hregistry] at hu
    split at hu
    · next hq =>
      obtain ⟨b, -, rfl⟩ := List.mem_map.mp hu
      exact .inr ⟨hq, b, rfl⟩
    · exact .inl hu
  · intro q
    rw [hregistry]
    split
    · exact List.pairwise_map.mpr (by decide : Builtin.all.Pairwise fun a b => a.name ≠ b.name)
    · exact h.names q
  · rintro q _ ⟨-, b, rfl⟩
    refine ⟨?_, .inl (Nat.le_add_right _ _)⟩
    rw [Store.HasTable, hsize]
    exact Nat.add_lt_add_left (by cases b <;> decide) _
  · rintro q _ q' _ ⟨rfl, b, rfl⟩ ⟨rfl, c, rfl⟩ - heq
    have hbc : c = b := by
      have hindex := Nat.add_left_cancel heq
      cases b <;> cases c <;> first | rfl | cases hindex
    exact ⟨rfl, by rw [hbc]⟩
  · intro q hq b
    rw [hregistry]
    split
    · refine ⟨_, List.mem_map_of_mem b.mem_all, rfl, rfl, fun hown => ?_⟩
      exact Nat.not_lt_of_le (Nat.le_add_right _ _) (h.ownTables _ hown).2
    · next hne =>
      rw [hregistries] at hq
      exact h.builtins q (Nat.lt_of_le_of_ne (Nat.le_of_lt_succ hq) hne) b

/-- A new entry has the table it was given, or one that was not there before. -/
theorem Sound.register (h : Sound ops w) {r : RegistryId} {name : Text}
    {targetName : Option Text} {members : Option TableId}
    (hop : (Operation.register r name targetName members).Possible w) :
    Sound (ops ++ [.register r name targetName members])
      ((Operation.register r name targetName members).apply w) := by
  obtain ⟨hr, hmembers⟩ := hop
  dsimp only [Operation.apply]
  rcases w.store.register_cases r name targetName members with
    ⟨_, -, heq⟩ | ⟨hfree, t, τ, heq, hname, htable, hregistries, -, hsize⟩
  · rw [heq]
    exact h.of_registries _ rfl (Nat.le_refl _)
  rw [heq]
  change Sound _ ⟨τ, w.own⟩
  have hgrown : w.store.tables.size ≤ τ.tables.size := by
    rw [hsize]
    split <;> omega
  have hregistry := Store.registry_modify hr hregistries
  refine h.of_entries (P := fun q u => q = r ∧ u = t) hgrown ?_ ?_ ?_ ?_ ?_
  · intro q u hu
    rw [hregistry] at hu
    split at hu
    · next hq =>
      rcases List.mem_append.mp hu with hu | hu
      · exact .inl (hq ▸ hu)
      · exact .inr ⟨hq, List.mem_singleton.mp hu⟩
    · exact .inl hu
  · intro q
    rw [hregistry]
    split
    · refine List.pairwise_append.mpr ⟨h.names r, List.pairwise_singleton _ _, ?_⟩
      rintro u hu _ hmem
      cases List.mem_singleton.mp hmem
      exact hname ▸ Store.name_ne_of_type?_none hfree u hu
    · exact h.names q
  · rintro q u ⟨rfl, rfl⟩
    cases members with
    | none =>
      have hu : u.members = w.store.tables.size := htable
      refine ⟨?_, .inl (Nat.le_of_eq hu.symm)⟩
      rw [Store.HasTable, hu, hsize]
      exact Nat.lt_succ_self _
    | some id =>
      have hu : u.members = id := htable
      have hown := hmembers id rfl
      refine ⟨?_, .inr ⟨hu ▸ hown, targetName, List.mem_append_right _ ?_⟩⟩
      · exact Nat.lt_of_lt_of_le (hu ▸ (h.ownTables id hown).2) hgrown
      · rw [hname, hu]
        exact List.mem_singleton_self _
  · rintro q u q' u' ⟨rfl, rfl⟩ ⟨rfl, rfl⟩ - -
    exact ⟨rfl, rfl⟩
  · intro q hq b
    rw [hregistries, Array.size_modify] at hq
    obtain ⟨u, hu, hb⟩ := h.builtins q hq b
    refine ⟨u, ?_, hb⟩
    rw [hregistry]
    split
    · next hqr => exact List.mem_append_left _ (hqr ▸ hu)
    · exact hu

/-- A way leads to a table that there is. -/
theorem Sound.hasTable (h : Sound ops w) {way : Way} {id : TableId}
    (hway : way.table? w = some id) :
    w.store.HasTable id := by
  cases way with
  | entry r name =>
    obtain ⟨t, ht, rfl⟩ := Option.map_eq_some_iff.mp hway
    exact (h.entryTables r t (Store.mem_of_type? ht).1).2
  | constant b =>
    cases hway
    refine Nat.lt_of_lt_of_le ?_ h.reserved
    cases b <;> decide
  | own id' =>
    dsimp only [Way.table?] at hway
    split at hway
    · next hown =>
      cases hway
      exact (h.ownTables _ hown).2
    · cases hway

/-- **Whatever is done keeps the entries in order, and takes none of them away.** -/
theorem Sound.apply (h : Sound ops w) {op : Operation} (hop : op.Possible w) :
    Sound (ops ++ [op]) (op.apply w) ∧ w.Widens (op.apply w) := by
  cases op with
  | newRegistry =>
    obtain ⟨hregistry, -, hregistries⟩ := w.store.newRegistry_entries
    refine ⟨h.newRegistry, ⟨hregistries ▸ Nat.le_succ _, fun r => ?_⟩⟩
    change _ <+: w.store.newRegistry.2.registry r
    rw [hregistry]
    split
    · next hr =>
      rw [Store.registry_of_le (Nat.le_of_eq hr.symm)]
      exact List.nil_prefix
    · exact List.prefix_refl _
  | newTable => exact ⟨h.newTable, ⟨Nat.le_refl _, fun _ => List.prefix_refl _⟩⟩
  | register r name targetName members =>
    refine ⟨h.register hop, ?_⟩
    dsimp only [Operation.apply]
    rcases w.store.register_cases r name targetName members with
      ⟨_, -, heq⟩ | ⟨-, t, τ, heq, -, -, hregistries, -, -⟩
    · rw [heq]
      exact .refl w
    · rw [heq]
      refine ⟨Nat.le_of_eq (hregistries ▸ (Array.size_modify ..).symm), fun q => ?_⟩
      change _ <+: τ.registry q
      rw [Store.registry_modify hop.1 hregistries]
      split
      · next hq => exact hq ▸ List.prefix_append _ _
      · exact List.prefix_refl _
  | declare way d =>
    obtain ⟨id, hway⟩ := hop
    have hid := h.hasTable hway
    have hregistries := Store.registries_declare hid d
    dsimp only [Operation.apply]
    rw [hway]
    refine ⟨h.of_registries _ hregistries (Nat.le_of_eq (Store.size_declare hid d).symm),
      Nat.le_of_eq (congrArg Array.size hregistries.symm), fun r => ?_⟩
    have hsame : w.store.registry r = (w.store.declare id d).registry r := by
      rw [Store.registry, Store.registry, hregistries]
    exact hsame ▸ List.prefix_refl _

/-- A step changes a table only if it declares something on a way that leads there. -/
theorem Sound.declares_of_changed (h : Sound ops w) {op : Operation} (hop : op.Possible w)
    {id : TableId} (hchanged : (op.apply w).store.table id ≠ w.store.table id) :
    ∃ way d, op = .declare way d ∧ way.table? w = some id := by
  cases op with
  | newRegistry => exact (hchanged (Store.table_newBuiltins Builtin.all w.store id)).elim
  | newTable => exact (hchanged (w.store.table_newTable_eq id)).elim
  | register r name targetName members =>
    dsimp only [Operation.apply] at hchanged
    rcases w.store.register_cases r name targetName members with
      ⟨_, -, heq⟩ | ⟨-, t, τ, heq, -, -, -, htable, -⟩
    · rw [heq] at hchanged
      exact (hchanged rfl).elim
    · rw [heq] at hchanged
      exact (hchanged (htable id)).elim
  | declare way d =>
    obtain ⟨other, hway⟩ := hop
    refine ⟨way, d, rfl, ?_⟩
    dsimp only [Operation.apply] at hchanged
    rw [hway] at hchanged
    by_cases hid : id = other
    · rw [hid, hway]
    · exact (hchanged (Store.table_declare_of_ne (h.hasTable hway) d hid)).elim

/-- **Ways that meet have been brought together by the host.** Two different ways lead to one table
only if it was made on its own, and each of the two is straight to it or through an entry that was
registered with it. -/
theorem Sound.given_of_meet (h : Sound ops w) {r : RegistryId} {name : Text} {way : Way}
    {id : TableId} (hentry : (Way.entry r name).table? w = some id) (hway : way.table? w = some id)
    (hne : way ≠ .entry r name) : id ∈ w.own ∧ Given ops r name id := by
  obtain ⟨t, ht, rfl⟩ := Option.map_eq_some_iff.mp hentry
  obtain ⟨hmem, rfl⟩ := Store.mem_of_type? ht
  have hown : t.members ∈ w.own := by
    by_contra hown
    cases way with
    | entry r' name' =>
      obtain ⟨t', ht', heq⟩ := Option.map_eq_some_iff.mp hway
      obtain ⟨hmem', rfl⟩ := Store.mem_of_type? ht'
      obtain ⟨rfl, hname⟩ := h.apart r t r' t' hmem hmem' hown heq
      exact hne (by rw [hname])
    | constant b =>
      have hindex : b.index = t.members := Option.some.inj hway
      have hsmall : b.index < 9 := by cases b <;> decide
      exact Nat.not_lt_of_le (h.entryTables r t hmem).1 (hindex ▸ hsmall)
    | own id' =>
      dsimp only [Way.table?] at hway
      split at hway
      · next hown' => exact hown (Option.some.inj hway ▸ hown')
      · cases hway
  exact ⟨hown, h.given r t hmem hown⟩

/-- A built-in name has a table that no other way leads to. -/
theorem Sound.builtin_apart (h : Sound ops w) {r : RegistryId} {b : Builtin} {way : Way}
    {id : TableId} (hentry : (Way.entry r b.name).table? w = some id)
    (hway : way.table? w = some id) : way = .entry r b.name := by
  by_contra hne
  obtain ⟨hown, -⟩ := h.given_of_meet hentry hway hne
  obtain ⟨t, ht, rfl⟩ := Option.map_eq_some_iff.mp hentry
  obtain ⟨hmem, hname⟩ := Store.mem_of_type? ht
  have hr : r < w.store.registries.size := by
    by_contra hr
    rw [Store.registry_of_le (Nat.le_of_not_lt hr)] at hmem
    cases hmem
  obtain ⟨u, hu, huname, -, hnot⟩ := h.builtins r hr b
  have hfound := Store.type?_of_mem (h.names r) hu
  rw [huname, ht] at hfound
  cases hfound
  exact hnot hown

variable {u : Bureau} {more : List Operation}

/-- A run does as every step of it does. -/
theorem Sound.runs (h : Sound ops w) (hruns : Runs w more u) :
    Sound (ops ++ more) u ∧ w.Widens u := by
  induction hruns with
  | nil => exact ⟨(List.append_nil ops).symm ▸ h, .refl w⟩
  | snoc _ op hop ih =>
    obtain ⟨hsound, hwidens⟩ := ih
    obtain ⟨hsound, hwidens'⟩ := hsound.apply hop
    exact ⟨List.append_assoc .. ▸ hsound, hwidens.trans hwidens'⟩

/-- An entry leads where it has led before. -/
theorem Widens.entry (h : w.Widens u) {r : RegistryId} {name : Text} {id : TableId}
    (hentry : (Way.entry r name).table? w = some id) : (Way.entry r name).table? u = some id := by
  obtain ⟨t, ht, rfl⟩ := Option.map_eq_some_iff.mp hentry
  exact Option.map_eq_some_iff.mpr ⟨t, h.type? ht, rfl⟩

/-- The table of a built-in name stays as it is while nothing is declared through its entry. -/
theorem Sound.table_of_runs (h : Sound ops w) {r : RegistryId} {b : Builtin} {id : TableId}
    (hentry : (Way.entry r b.name).table? w = some id) (hruns : Runs w more u)
    (hnone : ∀ d, .declare (.entry r b.name) d ∉ more) : u.store.table id = w.store.table id := by
  induction hruns with
  | nil => rfl
  | @snoc more v hruns op hop ih =>
    obtain ⟨hsound, hwidens⟩ := h.runs hruns
    have hv := ih fun d hd => hnone d (List.mem_append_left _ hd)
    by_contra hchanged
    obtain ⟨way, d, rfl, hway⟩ := hsound.declares_of_changed hop (hv ▸ hchanged)
    obtain rfl := hsound.builtin_apart (hwidens.entry hentry) hway
    exact hnone d (List.mem_append_right _ (List.mem_singleton_self _))

/-- A declaration through an entry changes no table but the one that it leads to. -/
theorem Sound.table_declare (h : Sound ops w) {way : Way} {id other : TableId}
    (hway : way.table? w = some id) (ho : other ≠ id) (d : Store.Declaration) :
    ((Operation.declare way d).apply w).store.table other = w.store.table other := by
  dsimp only [Operation.apply]
  rw [hway]
  exact Store.table_declare_of_ne (h.hasTable hway) d ho

/-- A registry has all built-in names for good, and everything that bears one of them is taken to
have the members of the registry's own entry. -/
theorem Sound.builtin_registered (h : Sound ops w) {r : RegistryId}
    (hr : r < w.store.registries.size) (b : Builtin) :
    (∃ t, w.store.type r b.name = .ok t ∧ t.name = b.name ∧ t.targetName = b.targetName ∧
      ∀ owner : Ty, owner.name = b.name → w.store.membersOfType r owner = t.members) ∧
    ∀ targetName members,
      w.store.register r b.name targetName members = .error (.duplicateType b.name) := by
  obtain ⟨t, ht, hname, htarget, -⟩ := h.builtins r hr b
  have hfound : w.store.type? r b.name = some t := hname ▸ Store.type?_of_mem (h.names r) ht
  refine ⟨⟨t, by rw [Store.type, hfound], hname, htarget, fun owner ho => ?_⟩,
    fun targetName members => ?_⟩
  · rw [Store.membersOfType, ho, hfound]
  · unfold Store.register
    rw [hfound]

/-- **Registries are isolated, and what they have they keep.** However a host has worked with them,
every registry has the nine built-in names, which it cannot register again.  The member table of
each changes only by what is declared through that entry, and such a declaration changes nothing
that is reached in any other way: not through another registry, nor another name, nor a built-in
type outside every registry.  Two entries share a table only if both were registered with it, and
what is declared through the one is then there for the other.  A name stays registered for what it
is registered for, and to register it again changes nothing. -/
theorem registries_isolated (h : Runs opened ops w) :
    (∀ r < w.store.registries.size, ∀ b : Builtin,
      (∃ t, w.store.type r b.name = .ok t ∧ t.name = b.name ∧ t.targetName = b.targetName ∧
        ∀ owner : Ty, owner.name = b.name → w.store.membersOfType r owner = t.members) ∧
      ∀ targetName members,
        w.store.register r b.name targetName members = .error (.duplicateType b.name)) ∧
    (∀ r (b : Builtin) id, (Way.entry r b.name).table? w = some id →
      (∀ more u, Runs w more u → (∀ d, .declare (.entry r b.name) d ∉ more) →
        u.store.table id = w.store.table id) ∧
      ∀ (way : Way) other, way.table? w = some other → way ≠ .entry r b.name → ∀ d,
        ((Operation.declare (.entry r b.name) d).apply w).store.table other
          = w.store.table other) ∧
    (∀ r name r' name' id, (Way.entry r name).table? w = some id →
      (Way.entry r' name').table? w = some id → Way.entry r name ≠ .entry r' name' →
      Given ops r name id ∧ Given ops r' name' id ∧
      ∀ d, let u := (Operation.declare (.entry r name) d).apply w
        (Way.entry r' name').table? u = some id ∧
          u.store.table id = (w.store.declare id d).table id) ∧
    (∀ r name t, w.store.type r name = .ok t →
      ∀ more u, Runs w more u → u.store.type r name = .ok t) ∧
    ∀ r name targetName members f, w.store.register r name targetName members = .error f →
      (Operation.register r name targetName members).apply w = w := by
  obtain ⟨hsound, -⟩ := sound_opened.runs h
  refine ⟨fun r hr b => hsound.builtin_registered hr b, fun r b id hentry => ⟨?_, ?_⟩, ?_, ?_, ?_⟩
  · exact fun more u hruns hnone => hsound.table_of_runs hentry hruns hnone
  · intro way other hway hne d
    refine hsound.table_declare hentry (fun heq => hne ?_) d
    exact hsound.builtin_apart hentry (heq ▸ hway)
  · intro r name r' name' id hentry hentry' hne
    refine ⟨(hsound.given_of_meet hentry hentry' hne.symm).2,
      (hsound.given_of_meet hentry' hentry hne).2, fun d => ⟨?_, ?_⟩⟩
    · have hop : (Operation.declare (.entry r name) d).Possible w := ⟨id, hentry⟩
      exact (hsound.apply hop).2.entry hentry'
    · dsimp only [Operation.apply]
      rw [hentry]
  · intro r name t ht more u hruns
    have hwidens := (hsound.runs hruns).2
    have ht : w.store.type? r name = some t := by
      unfold Store.type at ht
      split at ht
      · next t' ht' =>
        cases ht
        exact ht'
      · cases ht
    rw [Store.type, hwidens.type? ht]
  · intro r name targetName members f hf
    dsimp only [Operation.apply]
    rw [hf]
    rfl

/-- Two registries are made, and a table on its own with which both register `Box`. -/
def sharingOperations : List Operation :=
  [.newRegistry, .newRegistry, .newTable, .register 0 "Box" none (some 27),
    .register 1 "Box" none (some 27)]

/-- What that leaves. -/
def sharing : Bureau :=
  sharingOperations.foldl (fun w op => op.apply w) opened

theorem runs_sharing : Runs opened sharingOperations sharing := by
  have hfirst : Runs opened _ _ := Runs.nil.snoc .newRegistry trivial
  have hsecond := hfirst.snoc .newRegistry trivial
  have htable := hsecond.snoc .newTable trivial
  have hbox := htable.snoc (.register 0 "Box" none (some 27)) ⟨by decide, by rintro _ ⟨⟩; decide⟩
  exact hbox.snoc (.register 1 "Box" none (some 27)) ⟨by decide, by rintro _ ⟨⟩; decide⟩

theorem registries_isolated_sharing :
    Runs opened sharingOperations sharing ∧
    Given sharingOperations 0 "Box" 27 ∧ Given sharingOperations 1 "Box" 27 ∧
    ∀ d, (Way.entry 1 "Box").table? ((Operation.declare (.entry 0 "Box") d).apply sharing)
        = some 27 ∧
      ((Operation.declare (.entry 0 Builtin.string.name) d).apply sharing).store.table 26
        = sharing.store.table 26 := by
  obtain ⟨-, hbuiltin, hshared, -, -⟩ := registries_isolated runs_sharing
  obtain ⟨hgiven, hgiven', hseen⟩ := hshared 0 "Box" 1 "Box" 27 (by decide +kernel)
    (by decide +kernel) (by decide)
  have hapart := (hbuiltin 0 .string 17 (by decide +kernel)).2 (.entry 1 Builtin.string.name) 26
    (by decide +kernel) (by decide)
  exact ⟨runs_sharing, hgiven, hgiven', fun d => ⟨(hseen d).1, hapart d⟩⟩

end Bureau

end Parlance
