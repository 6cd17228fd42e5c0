/-
One program on two streams.

A program cannot tell to which stream it writes, until the stream refuses a text.  So with a stream
that takes more it runs the same, if it does not stop for a text that only the first stream refuses.
The log does not matter to it either.
-/
import Parlance.Proofs.Beside.Rooted
import Parlance.Proofs.Checking.Streams
import Parlance.Proofs.Paired.Relocation

namespace Parlance

open EStateM (Result)

/-- Two runs come to the same and have written the same, unless the first one stops for a text that
only its own stream refuses. -/
inductive RunsAcross {α : Type} (first second : Encoding) :
    Result Stop Store α → Result Stop Store α → Prop
  | answer {a : α} {ρ υ : Store} (h : υ.output = ρ.output) :
      RunsAcross first second (.ok a ρ) (.ok a υ)
  | stop {s : Stop} {ρ υ : Store} (h : υ.output = ρ.output) :
      RunsAcross first second (.error s ρ) (.error s υ)
  | refused {t : Text} {ρ : Store} {r : Result Stop Store α} (hrefused : ¬first.takes t = true)
      (htaken : second.takes t = true) : RunsAcross first second (.error (.fault .encoding) ρ) r

theorem RunsAcross.bind {α β : Type} {first second : Encoding} {x y : Eval α} {f : α → Eval β}
    {σ τ : Store} (h : RunsAcross first second (x σ) (y τ))
    (hf : ∀ a ρ υ, υ.output = ρ.output → RunsAcross first second (f a ρ) (f a υ)) :
    RunsAcross first second ((x >>= f) σ) ((y >>= f) τ) := by
  cases hx : x σ with
  | ok a ρ =>
    rw [hx] at h
    generalize hy : y τ = r at h
    cases h with
    | answer hsame =>
      rw [Eval.bind_apply hx, Eval.bind_apply hy]
      exact hf _ _ _ hsame
  | error stop ρ =>
    rw [hx] at h
    rw [Eval.bind_error hx]
    generalize hy : y τ = r at h
    cases h with
    | stop hsame =>
      rw [Eval.bind_error hy]
      exact .stop hsame
    | refused hrefused htaken => exact .refused hrefused htaken

theorem runsAcross_exitValue {first second : Encoding} (v : Value) {ρ υ : Store}
    (h : υ.output = ρ.output) :
    RunsAcross first second (Source.exitValue v ρ) (Source.exitValue v υ) := by
  cases v with
  | integer n => exact .answer h
  | _ => exact .stop h

variable {s : Source} {host : Host} {σ τ : Store}

/-- All tables and registries are where they were, and the second stream takes what the first one
does. -/
def widening (first second : Encoding)
    (h : ∀ t, first.takes t = true → second.takes t = true) : Relocation :=
  .here Eq (fun _ => rfl) (fun e e' => e = first ∧ e' = second) fun _ _ he t ht =>
    he.2 ▸ h t (he.1 ▸ ht)

/-- **A program does not see to which stream it writes.** In stores that differ in their streams and
logs at most, if the second stream takes what the first one does, the program comes to the same and
writes the same, unless it stops on the first one for a text that only this one refuses. -/
theorem Source.evaluate_across (h : σ.SameState τ)
    (htakes : ∀ t, σ.encoding.takes t = true → τ.encoding.takes t = true) (fuel : Nat) :
    RunsAcross σ.encoding τ.encoding (s.evaluate host fuel σ) (s.evaluate host fuel τ) := by
  obtain ⟨stream, log, rfl⟩ := h
  have same : s.Fits (widening σ.encoding stream htakes).code :=
    ⟨fun n _ => Relocation.fits_same n, fun _ _ _ _ n _ => Relocation.fits_same n⟩
  have together : (widening σ.encoding stream htakes).pairing.Together _
      ((host.evaluator σ).1.evaluate fuel s) ((host.evaluator σ).1.evaluate fuel s) :=
    (Relocation.pairing_lawful _).evaluate (Relocation.passes_refl _)
      (Source.alike_refl (Relocation.code_reflexive _) (fun _ => rfl) same)
  have hpass := newPass_redirect stream log σ host.parent host.registry (some .print)
  have hstream := (σ.stream_newPass host.parent host.registry (some .print)).2
  have hresults := together (σ := (host.evaluator σ).2)
    (τ := (host.evaluator σ).2.redirect stream log)
    (Relocation.stores_here rfl rfl rfl ⟨hstream, rfl⟩)
  have hevaluate : s.evaluate host fuel (σ.redirect stream log)
      = (host.evaluator σ).1.evaluate fuel s ((host.evaluator σ).2.redirect stream log) := by
    change (host.evaluator (σ.redirect stream log)).1.evaluate fuel s
      (host.evaluator (σ.redirect stream log)).2 = _
    rw [Host.evaluator, hpass]
    rfl
  rw [hevaluate]
  rcases Relocation.endsSame_or Eq.symm (fun h => h.1.symm) hresults with hends | hrefuses
  · change EndsSame _ (s.evaluate host fuel σ) _ at hends
    generalize s.evaluate host fuel σ = r at hends
    generalize (host.evaluator σ).1.evaluate fuel s _ = r' at hends ⊢
    cases hends with
    | answer hs => exact .answer hs.output
    | stop hs => exact .stop hs.output
  · obtain ⟨⟨_, _, t, ⟨rfl, rfl⟩, hrefused, htaken⟩, ρ, hρ⟩ := hrefuses
    rw [show s.evaluate host fuel σ = _ from hρ]
    exact .refused hrefused htaken

/-- The same holds of a program that is checked first. -/
theorem Source.run_across (h : σ.SameState τ)
    (htakes : ∀ t, σ.encoding.takes t = true → τ.encoding.takes t = true) (fuel : Nat) :
    RunsAcross σ.encoding τ.encoding (s.run host fuel σ) (s.run host fuel τ) := by
  have hsame : (s.analyze host σ).SameState (s.analyze host τ) := s.analyze_sameState host h
  have hσ := (s.analyze_continues host σ).encoding
  have hτ := (s.analyze_continues host τ).encoding
  change RunsAcross _ _ (finish (s.analyze host σ) host fuel σ)
    (finish (s.analyze host τ) host fuel τ)
  generalize s.analyze host σ = a at hsame hσ
  generalize s.analyze host τ = b at hsame hτ
  cases hsame with
  | @same tree verdict ρ υ hstore =>
    rw [← hσ, ← hτ] at htakes ⊢
    change RunsAcross _ _
      ((Eval.lift verdict >>= fun _ => tree.evaluate host fuel >>= exitValue) ρ)
      ((Eval.lift verdict >>= fun _ => tree.evaluate host fuel >>= exitValue) υ)
    cases verdict with
    | error f => exact .stop hstore.output
    | ok _ =>
      exact (evaluate_across hstore htakes fuel).bind fun v _ _ => runsAcross_exitValue v

end Parlance
