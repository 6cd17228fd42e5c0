/-
The variables of a store.

Values change all the time, the descriptions of variables never do: setting a value leaves
`Store.vars` as it is, and so does binding a function, so that stores in which the same has been
declared are equal in it.  A name is looked up among descriptions alone, and what it finds is told
by them.

The last part is about two scopes inside the same one.  If the variables of their own tables are
related one by one, what is found from the first has its counterpart in the second: the variable in
the same place of the own table, or the same variable of the same table around both.
-/
import Mathlib.Logic.Function.Basic
import Parlance.Proofs.Basic
import Parlance.Proofs.Store.NewPass

namespace Parlance.Store

/-- The variables of a table, in the order they were declared. -/
def vars (σ : Store) (id : TableId) : List Variable :=
  (σ.table id).slots.map Slot.var

variable {σ τ : Store}

theorem vars_modifyTable (σ : Store) (id : TableId) {f : Table → Table}
    (hf : ∀ t, (f t).slots.map Slot.var = t.slots.map Slot.var) :
    (σ.modifyTable id f).vars = σ.vars := by
  funext other
  unfold vars
  rcases σ.table_modifyTable id other f with h | ⟨rfl, -, h⟩
  · rw [h]
  · rw [h, hf]

@[simp] theorem vars_addRoutine (σ : Store) (id : TableId) (r : Routine) :
    (σ.modifyTable id fun t => t.addRoutine r).vars = σ.vars :=
  σ.vars_modifyTable id fun _ => rfl

@[simp] theorem vars_setValue (σ : Store) (v : Variable) (x : Value) :
    (σ.setValue v x).vars = σ.vars := by
  unfold setValue
  split
  · refine σ.vars_modifyTable _ fun t => ?_
    rw [Table.setValue, List.map_map]
    refine List.map_congr_left fun s _ => ?_
    by_cases h : s.var.name = v.name <;> simp [h]
  · rfl

theorem vars_of_not_hasTable {id : TableId} (h : ¬σ.HasTable id) : σ.vars id = [] := by
  rw [vars, table_of_not_hasTable h]
  rfl

section NewPass

variable {parent : Option Scope} {print? : Option Implementation} {pass : Pass}

/-- The own table of a new pass has no variables yet. -/
theorem NewPass.vars_top (h : NewPass σ parent print? pass τ) : τ.vars pass.scope.top = [] := by
  rw [vars, h.table]
  rfl

/-- A new pass declares no variable. -/
theorem NewPass.vars (h : NewPass σ parent print? pass τ) : τ.vars = σ.vars := by
  funext id
  by_cases hid : id = pass.scope.top
  · rw [hid, h.vars_top, vars_of_not_hasTable h.fresh]
  · rw [Store.vars, h.other id hid]
    rfl

end NewPass

/-! ### Declaring -/

/-- From one store to the other these variables are declared in one table, in this order, and
nothing in any other. -/
def Declares (top : TableId) (σ τ : Store) (added : List Variable) : Prop :=
  τ.vars = Function.update σ.vars top (σ.vars top ++ added)

namespace Declares

variable {top : TableId} {added more : List Variable} {υ : Store}

theorem of_eq (h : τ.vars = σ.vars) : Declares top σ τ [] := by
  rw [Declares, List.append_nil, Function.update_eq_self, h]

theorem eq_of_nil (h : Declares top σ τ []) : τ.vars = σ.vars := by
  rwa [Declares, List.append_nil, Function.update_eq_self] at h

theorem own (h : Declares top σ τ added) : τ.vars top = σ.vars top ++ added := by
  rw [h, Function.update_self]

theorem other (h : Declares top σ τ added) {id : TableId} (hid : id ≠ top) :
    τ.vars id = σ.vars id := by
  rw [h, Function.update_of_ne hid]

theorem trans (h : Declares top σ τ added) (h' : Declares top τ υ more) :
    Declares top σ υ (added ++ more) := by
  rw [Declares, h', h.own, List.append_assoc]
  rw [h, Function.update_idem]

theorem addSlot (h : σ.HasTable top) (s : Slot) :
    Declares top σ (σ.modifyTable top fun t => t.addSlot s) [s.var] := by
  funext id
  by_cases hid : id = top
  · subst hid
    rw [Function.update_self, vars, table_modifyTable_self h, Table.addSlot, List.map_append]
    rfl
  · rw [Function.update_of_ne hid, vars, table_modifyTable_of_ne σ hid]
    rfl

end Declares

/-! ### Looking up -/

/-- A name finds variables that are related, or none, in tables with related variables. -/
theorem slot?_rel {R : Variable → Variable → Prop} {id id' : TableId}
    (h : List.Forall₂ R (σ.vars id) (τ.vars id')) (hname : ∀ {v u}, R v u → u.name = v.name)
    (name : Name) :
    ((σ.table id).slot? name).Rel (fun s r => R s.var r.var) ((τ.table id').slot? name) := by
  rw [vars, vars, List.forall₂_map_left_iff, List.forall₂_map_right_iff] at h
  refine forall₂_find? ?_ h
  intro s r hsr
  rw [hname hsr]

/-- The two variables are found under a name in the same of these tables, and are the same one. -/
def Twins (ids : List TableId) (σ τ : Store) (name : Name) (s r : Slot) : Prop :=
  ∃ id ∈ ids, (σ.table id).slot? name = some s ∧ (τ.table id).slot? name = some r ∧ r.var = s.var

theorem findVariable_cons (σ : Store) (name : Name) (id : TableId) (ids : List TableId) :
    σ.findVariable name (id :: ids)
      = ((σ.table id).slot? name).or (σ.findVariable name ids) := by
  unfold findVariable
  rw [List.findSome?_cons]
  cases (σ.table id).slot? name <;> rfl

/-- Along a chain of tables that have the same variables in both stores, a name finds the same
variable in the same table. -/
theorem exists_twin {ids : List TableId} {name : Name} {s : Slot}
    (h : ∀ id ∈ ids, τ.vars id = σ.vars id) (hs : σ.findVariable name ids = some s) :
    ∃ r, τ.findVariable name ids = some r ∧ Twins ids σ τ name s r := by
  induction ids with
  | nil => cases hs
  | cons id ids ih =>
    have hvars : List.Forall₂ (fun v u => u = v) (σ.vars id) (τ.vars id) := by
      rw [h id List.mem_cons_self]
      exact List.forall₂_same.mpr fun _ _ => rfl
    have hrel := slot?_rel hvars (fun hvu => hvu ▸ rfl) name
    rw [findVariable_cons] at hs ⊢
    cases hfirst : (σ.table id).slot? name with
    | some a =>
      rw [hfirst, Option.some_or] at hs
      cases hs
      obtain ⟨r, hr, hvar⟩ := exists_of_rel hrel hfirst
      exact ⟨r, by rw [hr, Option.some_or], id, List.mem_cons_self, hfirst, hr, hvar⟩
    | none =>
      rw [hfirst, Option.none_or] at hs
      obtain ⟨r, hr, other, ho, htwin⟩ := ih (fun i hi => h i (List.mem_cons_of_mem _ hi)) hs
      exact ⟨r, by rw [none_of_rel hrel hfirst, Option.none_or, hr], other,
        List.mem_cons_of_mem _ ho, htwin⟩

/-- **What the first scope finds has a counterpart in the second**, when the variables of their own
tables are related by their names, and the scopes around them have the same ones. -/
theorem exists_related {R : Variable → Variable → Prop} {top top' : TableId}
    {outer : List TableId} {name : Name} {s : Slot}
    (hown : List.Forall₂ R (σ.vars top) (τ.vars top'))
    (hname : ∀ {v u}, R v u → u.name = v.name)
    (houter : ∀ id ∈ outer, τ.vars id = σ.vars id)
    (hs : σ.findVariable name (top :: outer) = some s) :
    ∃ r, τ.findVariable name (top' :: outer) = some r ∧
      (R s.var r.var ∨ Twins outer σ τ name s r) := by
  have hrel := slot?_rel hown hname name
  rw [findVariable_cons] at hs ⊢
  cases hfirst : (σ.table top).slot? name with
  | some a =>
    rw [hfirst, Option.some_or] at hs
    cases hs
    obtain ⟨r, hr, hR⟩ := exists_of_rel hrel hfirst
    exact ⟨r, by rw [hr, Option.some_or], .inl hR⟩
  | none =>
    rw [hfirst, Option.none_or] at hs
    obtain ⟨r, hr, htwins⟩ := exists_twin houter hs
    exact ⟨r, by rw [none_of_rel hrel hfirst, Option.none_or, hr], .inr htwins⟩

end Parlance.Store
