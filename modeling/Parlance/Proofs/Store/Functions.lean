/-
The functions of a store.

Each table binds functions of its own, and what becomes of them in the course of a check or a
run is simple: nothing at all, or functions are added to the table of the pass.  So two stores
are set side by side by their functions alone, whatever the values of their variables are.

The last part is about two scopes inside the same one.  If a function is found from the first,
what the second finds for the key is that same function, or one of its own: the one which is
related to it, or one that the first scope does not have.
-/
import Parlance.Proofs.Basic
import Parlance.Proofs.Store.NewPass

namespace Parlance

/-! ### Stores with the same functions -/

/-- The second store has the tables of the first, each with the same functions. -/
structure Store.SameFunctions (σ τ : Store) : Prop where
  size : τ.tables.size = σ.tables.size
  routines : ∀ id, (τ.table id).routines = (σ.table id).routines

namespace Store.SameFunctions

variable {σ τ υ : Store}

theorem refl (σ : Store) : σ.SameFunctions σ :=
  ⟨rfl, fun _ => rfl⟩

theorem trans (h : σ.SameFunctions τ) (h' : τ.SameFunctions υ) : σ.SameFunctions υ :=
  ⟨h'.size.trans h.size, fun id => (h'.routines id).trans (h.routines id)⟩

theorem hasTable (h : σ.SameFunctions τ) {id : TableId} (hid : σ.HasTable id) : τ.HasTable id := by
  rwa [HasTable, h.size]

/-- A change of a table that leaves its functions. -/
theorem modifyTable (σ : Store) (id : TableId) {f : Table → Table}
    (hf : ∀ t, (f t).routines = t.routines) : σ.SameFunctions (σ.modifyTable id f) := by
  refine ⟨by simp [Store.modifyTable], fun other => ?_⟩
  rcases σ.table_modifyTable id other f with h | ⟨rfl, -, h⟩
  · rw [h]
  · rw [h, hf]

theorem setValue (σ : Store) (v : Variable) (x : Value) : σ.SameFunctions (σ.setValue v x) := by
  unfold Store.setValue
  split
  · exact modifyTable σ _ fun _ => rfl
  · exact refl σ

end Store.SameFunctions

/-! ### Functions of some table -/

/-- What a function is looked up by. -/
def Routine.key (r : Routine) : Name × Nat :=
  (r.function.name, r.function.arity)

/-- Some table of the store has the function. -/
def Store.HasRoutine (σ : Store) (r : Routine) : Prop :=
  ∃ id, r ∈ (σ.table id).routines

namespace Store

variable {σ τ υ : Store}

theorem SameFunctions.hasRoutine (h : σ.SameFunctions τ) {r : Routine} (hr : τ.HasRoutine r) :
    σ.HasRoutine r := by
  obtain ⟨id, hr⟩ := hr
  exact ⟨id, h.routines id ▸ hr⟩

theorem hasRoutine_of_memberFunction {id : TableId} {name : Name} {arity : Nat} {r : Routine}
    (h : σ.memberFunction id name arity = .ok r) : σ.HasRoutine r :=
  ⟨id, (Table.mem_of_routine? (σ.memberFunction_ok.mp h)).1⟩

/-- A function that is found along a chain of tables is one of some table in it. -/
theorem mem_of_findFunction {ids : List TableId} {name : Name} {arity : Nat} {r : Routine}
    (h : σ.findFunction name arity ids = some r) :
    ∃ id ∈ ids, r ∈ (σ.table id).routines ∧ r.function.name = name ∧ r.function.arity = arity := by
  obtain ⟨id, hid, hr⟩ := List.exists_of_findSome?_eq_some h
  exact ⟨id, hid, Table.mem_of_routine? hr⟩

theorem hasRoutine_of_scopeFunction {scope : Scope} {name : Name} {arity : Nat} {r : Routine}
    (h : σ.scopeFunction scope name arity = .ok r) : σ.HasRoutine r := by
  obtain ⟨id, -, hr, -⟩ := mem_of_findFunction (σ.scopeFunction_ok.mp h)
  exact ⟨id, hr⟩

theorem arity_of_scopeFunction {scope : Scope} {name : Name} {arity : Nat} {r : Routine}
    (h : σ.scopeFunction scope name arity = .ok r) : r.function.arity = arity := by
  obtain ⟨_, _, _, _, harity⟩ := mem_of_findFunction (σ.scopeFunction_ok.mp h)
  exact harity

/-! ### Adding functions to one table -/

/-- From one store to the other these functions are added to one table, and no other table has
its functions changed. -/
structure AddsFunctions (top : TableId) (σ τ : Store) (added : List Routine) : Prop where
  size : τ.tables.size = σ.tables.size
  other : ∀ id, id ≠ top → (τ.table id).routines = (σ.table id).routines
  own : (τ.table top).routines = (σ.table top).routines ++ added

namespace AddsFunctions

variable {top : TableId} {added more : List Routine}

theorem of_same (h : σ.SameFunctions τ) : AddsFunctions top σ τ [] :=
  ⟨h.size, fun id _ => h.routines id, by rw [h.routines, List.append_nil]⟩

theorem trans (h : AddsFunctions top σ τ added) (h' : AddsFunctions top τ υ more) :
    AddsFunctions top σ υ (added ++ more) :=
  ⟨h'.size.trans h.size, fun id hid => (h'.other id hid).trans (h.other id hid),
    by rw [h'.own, h.own, List.append_assoc]⟩

theorem hasTable (h : AddsFunctions top σ τ added) {id : TableId} (hid : σ.HasTable id) :
    τ.HasTable id := by
  rwa [HasTable, h.size]

theorem addRoutine (htop : σ.HasTable top) (r : Routine) :
    AddsFunctions top σ (σ.modifyTable top fun t => t.addRoutine r) [r] := by
  refine ⟨by simp [modifyTable], fun id hid => ?_, ?_⟩
  · rw [table_modifyTable_of_ne σ hid]
  · rw [table_modifyTable_self htop]
    rfl

end AddsFunctions

/-! ### What holds of every function -/

/-- What holds of every function of a store, and of those that are added, holds of every function
afterwards. -/
theorem AddsFunctions.forall_routine {P : Routine → Prop} {top : TableId} {added : List Routine}
    (h : AddsFunctions top σ τ added) (hσ : ∀ r, σ.HasRoutine r → P r) (hadded : ∀ r ∈ added, P r) :
    ∀ r, τ.HasRoutine r → P r := by
  rintro r ⟨id, hr⟩
  by_cases hid : id = top
  · subst hid
    rw [h.own] at hr
    rcases List.mem_append.mp hr with hr | hr
    · exact hσ r ⟨id, hr⟩
    · exact hadded r hr
  · rw [h.other id hid] at hr
    exact hσ r ⟨id, hr⟩

/-- A new pass only adds `print`. -/
theorem NewPass.forall_routine {P : Routine → Prop} {parent : Option Scope}
    {print? : Option Implementation} {pass : Pass} (h : NewPass σ parent print? pass τ)
    (hσ : ∀ r, σ.HasRoutine r → P r) (hprint : P ⟨printer pass.scope.top, print?⟩) :
    ∀ r, τ.HasRoutine r → P r := by
  rintro r ⟨id, hr⟩
  by_cases hid : id = pass.scope.top
  · subst hid
    rw [h.table] at hr
    exact List.mem_singleton.mp hr ▸ hprint
  · rw [h.other id hid] at hr
    exact hσ r ⟨id, hr⟩

/-! ### Two scopes inside the same one -/

theorem findFunction_cons (σ : Store) (name : Name) (arity : Nat) (id : TableId)
    (ids : List TableId) :
    σ.findFunction name arity (id :: ids)
      = ((σ.table id).routine? name arity).or (σ.findFunction name arity ids) := by
  unfold findFunction
  rw [List.findSome?_cons]
  cases (σ.table id).routine? name arity <;> rfl

theorem findFunction_congr {ids : List TableId}
    (h : ∀ id ∈ ids, (τ.table id).routines = (σ.table id).routines) (name : Name) (arity : Nat) :
    τ.findFunction name arity ids = σ.findFunction name arity ids := by
  induction ids with
  | nil => rfl
  | cons id ids ih =>
    rw [findFunction_cons, findFunction_cons, ih fun id hid => h id (List.mem_cons_of_mem _ hid)]
    unfold Table.routine?
    rw [h id List.mem_cons_self]

/-- What is found from the second of two scopes inside the same one, when `s` is found from the
first: the function of its own that is related to `s`, one that it has beside those, or `s`. -/
inductive Counterpart (R : Routine → Routine → Prop) (later : List Routine) (ids : List TableId)
    (σ : Store) (s r : Routine) : Prop
  | own (h : R s r)
  | hidden (h : r ∈ later) (hk : r.function.name = s.function.name ∧
      r.function.arity = s.function.arity) {id : TableId} (hid : id ∈ ids)
      (hs : s ∈ (σ.table id).routines)
  | outer (h : r = s) {id : TableId} (hid : id ∈ ids) (hs : s ∈ (σ.table id).routines)
      (hk : ∀ l ∈ later, ¬(l.function.name = s.function.name ∧
        l.function.arity = s.function.arity))

/-- **What the first scope finds has a counterpart in the second**, when the functions of the
first are related to some of the second by their keys, and the scopes around them have the same
ones. -/
theorem exists_counterpart {R : Routine → Routine → Prop} {top top' : TableId}
    {outer : List TableId} {name : Name} {arity : Nat} {own later : List Routine} {s : Routine}
    (hown : List.Forall₂ R (σ.table top).routines own)
    (hkey : ∀ {a b}, R a b → b.function.name = a.function.name ∧
      b.function.arity = a.function.arity)
    (htop : (τ.table top').routines = own ++ later)
    (houter : ∀ id ∈ outer, (τ.table id).routines = (σ.table id).routines)
    (hs : σ.findFunction name arity (top :: outer) = some s) :
    ∃ r, τ.findFunction name arity (top' :: outer) = some r ∧ Counterpart R later outer σ s r := by
  have hrel : ((σ.table top).routine? name arity).Rel R (own.find? fun r =>
      r.function.name == name && r.function.arity == arity) :=
    forall₂_find? (fun {a b} hab => by rw [(hkey hab).1, (hkey hab).2]) hown
  have htop' : (τ.table top').routine? name arity
      = (own.find? fun r => r.function.name == name && r.function.arity == arity).or
        (later.find? fun r => r.function.name == name && r.function.arity == arity) := by
    unfold Table.routine?
    rw [htop, List.find?_append]
  rw [findFunction_cons, htop', findFunction_congr houter]
  rw [findFunction_cons] at hs
  cases hfirst : (σ.table top).routine? name arity with
  | some a =>
    rw [hfirst, Option.some_or] at hs
    cases hs
    obtain ⟨r, hr, hR⟩ := exists_of_rel hrel hfirst
    exact ⟨r, by rw [hr, Option.some_or, Option.some_or], .own hR⟩
  | none =>
    rw [hfirst, Option.none_or] at hs
    rw [none_of_rel hrel hfirst, Option.none_or, hs]
    obtain ⟨id, hid, hmem, rfl, rfl⟩ := mem_of_findFunction hs
    cases hlater : later.find? fun r =>
        r.function.name == s.function.name && r.function.arity == s.function.arity with
    | some l =>
      refine ⟨l, Option.some_or, .hidden (List.mem_of_find?_eq_some hlater) ?_ hid hmem⟩
      simpa using List.find?_some hlater
    | none =>
      refine ⟨s, Option.none_or, .outer rfl hid hmem ?_⟩
      intro l hl
      simpa using List.find?_eq_none.mp hlater l hl

end Store

end Parlance
