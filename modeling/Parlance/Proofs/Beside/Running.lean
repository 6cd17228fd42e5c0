/-
Evaluations beside a check.

A source that is evaluated has a pass of its own, which finds what the host has given it and nothing
of what any other pass has made.  So it ends the same, and leaves the host the same, whether or not
the source has been checked before.
-/
import Parlance.Proofs.Beside.Shift
import Parlance.Proofs.Running.Scopes

namespace Parlance

/-- What the first store has is the same in the two others, and the same has been written to streams
of one encoding. -/
structure Store.SameHost (σ ρ υ : Store) : Prop where
  tables : ∀ id, σ.HasTable id → υ.table id = ρ.table id
  registries : ∀ r, r < σ.registries.size → υ.registry r = ρ.registry r
  output : υ.output = ρ.output
  encoding : υ.encoding = ρ.encoding

namespace Beside

open EStateM (Result)

variable {σ τ ρ υ : Store} {host : Host} {s s' : Source}

theorem slots_eq {ss ts : List Slot} (hvalues : List.Forall₂ (fun s t => s.value = t.value) ss ts)
    (hvars : ts.map Slot.var = ss.map Slot.var) : ts = ss := by
  induction hvalues with
  | nil => rfl
  | @cons s t ss ts hvalue _ ih =>
    obtain ⟨hvar, hrest⟩ := List.cons.inj hvars
    obtain ⟨v, x⟩ := s
    obtain ⟨v', x'⟩ := t
    cases hvalue
    cases hvar
    rw [ih hrest]

/-- Where all bindings of the host have stayed, the same values are left in them. -/
theorem sameHost (h : σ.Continues τ) (hstores : (Gap.between σ τ).relocation.Stores ρ υ)
    (hρ : σ.Spares ρ) (hυ : τ.Spares υ) : σ.SameHost ρ υ where
  tables id hid := by
    have hid' := h.keeps.hasTable hid
    have hslots : (υ.table id).slots = (ρ.table id).slots := by
      have hvalues := (hstores.slots (shift_of_lt hid)).imp fun _ _ hs => hs.value
      refine slots_eq hvalues ((hυ.vars id hid').trans ?_)
      rw [Store.vars, h.keeps.table id hid, ← Store.vars, ← hρ.vars id hid, Store.vars]
    have hroutines : (υ.table id).routines = (ρ.table id).routines := by
      rw [hυ.functions id hid', h.keeps.table id hid, hρ.functions id hid]
    cases hr : ρ.table id
    cases hu : υ.table id
    rw [hr, hu] at hslots hroutines
    cases hslots
    cases hroutines
    rfl
  registries r hr := by
    rw [hυ.registries r (Nat.lt_of_lt_of_le hr h.moreRegistries), h.registries r hr,
      hρ.registries r hr]
  output := hstores.output
  encoding := hstores.encoding

/-- **A run is the same beside whatever has been made in the meantime.** -/
theorem evaluate (hσ : σ.Rooted) (hhost : host.Rooted σ) (h : σ.Continues τ)
    (hs : s.Alike (Gap.between σ τ).relocation.code s') (fuel : Nat) :
    EndsSame σ.SameHost (s.evaluate host fuel σ) (s'.evaluate host fuel τ) := by
  have hknows : (Gap.between σ τ).Knows host := ⟨hhost.scope, hhost.registry⟩
  obtain ⟨hstores, hpasses⟩ := (held_between hσ h).evaluator hknows
  have together : (Gap.between σ τ).relocation.pairing.Together _
      ((host.evaluator σ).1.evaluate fuel s) ((host.evaluator τ).1.evaluate fuel s') :=
    (Relocation.pairing_lawful _).evaluate hpasses hs
  have hρ := s.evaluate_spares host fuel σ
  have hυ := s'.evaluate_spares host fuel τ
  have hends := Relocation.endsSame (fun hf => Eq.symm hf) (fun he => he) (fun hv => Eq.symm hv.1)
    (together hstores.stores)
  change EndsSame _ (s.evaluate host fuel σ) (s'.evaluate host fuel τ) at hends
  unfold Eval.after at hρ hυ
  generalize s.evaluate host fuel σ = r at hends hρ
  generalize s'.evaluate host fuel τ = r' at hends hυ
  cases hends with
  | answer hs => exact .answer (sameHost h hs hρ hυ)
  | stop hs => exact .stop (sameHost h hs hρ hυ)

end Beside

end Parlance
