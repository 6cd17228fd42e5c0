/-
Tables that correspond.

If variables and functions of two tables correspond one by one, and under the same names, a name
finds something in both or in neither, and what is declared in both keeps them in step.
-/
import Parlance.Proofs.Paired.Collation
import Parlance.Proofs.Store.Functions
import Parlance.Proofs.Store.Variables

namespace Parlance

namespace Correspondence

/-- Tables whose variables and functions correspond, in order. -/
structure Tables (k : Correspondence) (t t' : Table) : Prop where
  slots : List.Forall₂ (fun s s' => k.Variables s.var s'.var) t.slots t'.slots
  routines : List.Forall₂ (fun r r' => k.Functions r.function r'.function) t.routines t'.routines

namespace Tables

variable {k : Correspondence} {t t' : Table} {σ σ₁ τ : Store} {id id' : TableId}

theorem routine? (h : k.Tables t t') (n : Name) (count : Nat) :
    Option.Rel (fun r r' => k.Functions r.function r'.function)
      (t.routine? n count) (t'.routine? n count) :=
  forall₂_find? (fun {r r'} hr => by
    rw [hr.name, Function.arity, Function.arity, hr.parameterTypes.length_eq]) h.routines

theorem slot? (hk : ∀ {n n'}, k.names n n' → n' = n) (h : k.Tables t t') (n : Name) :
    Option.Rel (fun s s' => k.Variables s.var s'.var) (t.slot? n) (t'.slot? n) :=
  forall₂_find? (fun {s s'} hs => by rw [hk hs.name]) h.slots

theorem addSlot (h : k.Tables t t') {s s' : Slot} (hs : k.Variables s.var s'.var) :
    k.Tables (t.addSlot s) (t'.addSlot s') :=
  ⟨List.rel_append h.slots (.cons hs .nil), h.routines⟩

theorem addRoutine (h : k.Tables t t') {r r' : Routine} (hr : k.Functions r.function r'.function) :
    k.Tables (t.addRoutine r) (t'.addRoutine r') :=
  ⟨h.slots, List.rel_append h.routines (.cons hr .nil)⟩

/-- A function that one table has room for, the other has too. -/
theorem declareFunction (h : k.Tables (σ.table id) (τ.table id')) {n : Name} {ts ts' : List Ty}
    {r r' : Ty} {f : Function} (hts : List.Forall₂ k.types ts ts') (hr : k.types r r')
    (hd : σ.declareFunction id n (ts.map some) (some r) none none = .ok (f, σ₁)) :
    ∃ f', k.Functions f f' ∧ σ₁ = σ.modifyTable id (·.addRoutine ⟨f, none⟩) ∧
      τ.declareFunction id' n (ts'.map some) (some r') none none
        = .ok (f', τ.modifyTable id' (·.addRoutine ⟨f', none⟩)) := by
  have hopen : List.Forall₂ k.Open (ts.map some) (ts'.map some) := by
    rw [List.forall₂_map_left_iff, List.forall₂_map_right_iff]
    exact hts.imp fun _ _ => .some
  unfold Store.declareFunction at hd ⊢
  split at hd
  · cases hd
  · next hfree =>
    cases hd
    have hfree' := none_of_rel (h.routine? n _) hfree
    rw [hopen.length_eq] at hfree'
    exact ⟨⟨n, n, ts'.map some, some r', id'⟩, ⟨rfl, rfl, hopen, .some hr⟩, rfl,
      by rw [hfree']; rfl⟩

end Tables

end Correspondence

end Parlance
