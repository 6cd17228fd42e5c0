/-
Stores that a host can have built.

A function knows the table that it is bound in, and one that runs a method knows the pass
that has declared it, whose scope was there by then.  Nothing binds a function in another way,
so this holds from the first store on, whatever the host has made and run in the meantime.
-/
import Parlance.Proofs.Store.Functions

namespace Parlance.Store

/-- Each function is bound in its own table, and runs a method, if it does, in a scope that is
there. -/
structure Sound (σ : Store) : Prop where
  home : ∀ id, ∀ r ∈ (σ.table id).routines, r.function.home = id
  scope : ∀ id, ∀ r ∈ (σ.table id).routines, ∀ m pass,
    r.implementation? = some (.method m pass) → σ.HasTable pass.scope.top

theorem sound_opened (e : Encoding) : (opened e).Sound := by
  have h (id : TableId) : ((opened e).table id).routines = [] :=
    congrArg Table.routines (table_opened e id)
  refine ⟨?_, ?_⟩
  · intro id r hr
    rw [h id] at hr
    cases hr
  · intro id r hr
    rw [h id] at hr
    cases hr

namespace Sound

variable {σ τ : Store} (h : σ.Sound)

include h

/-- A store with the same functions, and perhaps with more tables. -/
theorem of_routines (hsize : σ.tables.size ≤ τ.tables.size)
    (hr : ∀ id, (τ.table id).routines = (σ.table id).routines) : τ.Sound := by
  refine ⟨?_, ?_⟩
  · intro id r hmem
    rw [hr] at hmem
    exact h.home id r hmem
  · intro id r hmem m pass hm
    rw [hr] at hmem
    exact Nat.lt_of_lt_of_le (h.scope id r hmem m pass hm) hsize

theorem of_same (hs : σ.SameFunctions τ) : τ.Sound :=
  h.of_routines (Nat.le_of_eq hs.size.symm) hs.routines

theorem newScope (parent : Option Scope) : (σ.newScope parent).2.Sound :=
  h.of_routines σ.keeps_newTable.size fun id => congrArg _ (σ.table_newTable_eq id)

/-- Functions that are added to a table have to be sound themselves. -/
theorem adds {top : TableId} {added : List Routine} (ha : AddsFunctions top σ τ added)
    (hhome : ∀ r ∈ added, r.function.home = top)
    (hscope : ∀ r ∈ added, ∀ m pass, r.implementation? = some (.method m pass) →
      τ.HasTable pass.scope.top) : τ.Sound := by
  refine ⟨?_, ?_⟩
  · intro id r hmem
    by_cases hid : id = top
    · subst hid
      rw [ha.own] at hmem
      rcases List.mem_append.mp hmem with hmem | hmem
      · exact h.home id r hmem
      · exact hhome r hmem
    · rw [ha.other id hid] at hmem
      exact h.home id r hmem
  · intro id r hmem m pass hm
    by_cases hid : id = top
    · subst hid
      rw [ha.own] at hmem
      rcases List.mem_append.mp hmem with hmem | hmem
      · exact ha.hasTable (h.scope id r hmem m pass hm)
      · exact hscope r hmem m pass hm
    · rw [ha.other id hid] at hmem
      exact ha.hasTable (h.scope id r hmem m pass hm)

/-- Binding a function, which runs a method only in a scope that is there. -/
theorem declareFunction {id : TableId} {name : Name} {types : List (Option Ty)}
    {result : Option Ty} {implementation? : Option Implementation} {target : Option Text}
    {f : Function}
    (hd : σ.declareFunction id name types result implementation? target = .ok (f, τ))
    (htop : σ.HasTable id)
    (hscope : ∀ m pass, implementation? = some (.method m pass) → σ.HasTable pass.scope.top) :
    τ.Sound := by
  unfold Store.declareFunction at hd
  split at hd
  · cases hd
  · cases hd
    refine h.adds (AddsFunctions.addRoutine htop _) ?_ ?_
    · intro r hr
      rw [List.mem_singleton.mp hr]
    · intro r hr m pass hm
      rw [List.mem_singleton.mp hr] at hm
      exact (hasTable_modifyTable σ).mpr (hscope m pass hm)

/-- A new pass, whose `print` runs no method. -/
theorem newPass {parent : Option Scope} {registry : Option RegistryId}
    {print? : Option Implementation} (hprint : ∀ m pass, print? ≠ some (.method m pass)) :
    (σ.newPass parent registry print?).2.Sound := by
  have hnew := σ.newPass_spec parent registry print?
  refine ⟨?_, ?_⟩
  · intro id r hmem
    by_cases hid : id = (σ.newPass parent registry print?).1.scope.top
    · subst hid
      rw [hnew.table] at hmem
      rw [List.mem_singleton.mp hmem]
      rfl
    · rw [hnew.other id hid] at hmem
      exact h.home id r hmem
  · intro id r hmem m pass hm
    by_cases hid : id = (σ.newPass parent registry print?).1.scope.top
    · subst hid
      rw [hnew.table] at hmem
      rw [List.mem_singleton.mp hmem] at hm
      exact absurd hm (hprint m pass)
    · rw [hnew.other id hid] at hmem
      exact hnew.keeps.hasTable (h.scope id r hmem m pass hm)

end Sound

end Parlance.Store
