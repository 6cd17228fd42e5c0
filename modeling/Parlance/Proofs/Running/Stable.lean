/-
Functions stay as they are.

Methods are declared before the first of them runs, and nothing that runs declares one.  So all
tables have the same functions throughout, whatever program it is and whatever the host's functions
do.
-/
import Parlance.Proofs.Running.Changes

namespace Parlance

/-- When the evaluation comes to an answer, all functions are as they were. -/
def Eval.Stable {α : Type} (x : Eval α) : Prop :=
  ∀ ⦃σ a τ⦄, x σ = .ok a τ → σ.SameFunctions τ

open Eval

theorem Eval.Keeps.stable {α : Type} {d : Prop} {x : Eval α} {Q : α → Prop} (h : Keeps d x Q) :
    Stable x := by
  intro σ a τ hx
  exact (h hx).1.same_functions

/-- With so much fuel, every function of the evaluator leaves all functions as they are. -/
structure StableAt (fuel : Nat) : Prop where
  eval : ∀ pass locals e, Stable (eval pass locals fuel e)
  evalAll : ∀ pass locals es, Stable (evalAll pass locals fuel es)
  invoke : ∀ r vs, Stable (invoke fuel r vs)
  exec : ∀ pass locals s, Stable (exec pass fuel locals s)
  execAll : ∀ pass locals ss, Stable (execAll pass fuel locals ss)
  block : ∀ pass locals frame ss, Stable (block pass fuel locals frame ss)
  iterate : ∀ pass locals name items ss, Stable (iterate pass fuel locals name items ss)
  loop : ∀ pass locals e ss, Stable (loop pass fuel locals e ss)

/-- **Nothing that runs changes a function**, whatever the fuel. -/
theorem stableAt (fuel : Nat) : StableAt fuel := by
  have h := keepsAt fuel
  exact ⟨fun _ _ _ => (h.eval (d := False) _ _ _).stable,
    fun _ _ _ => (h.evalAll (d := False) _ _ _).stable,
    fun _ _ => (h.invoke (d := False) _ _).stable, fun _ _ _ => (h.exec _ _ _).stable,
    fun _ _ _ => (h.execAll _ _ _).stable,
    fun _ _ _ _ => (h.block (d := False) _ _ _ _).stable,
    fun _ _ _ _ _ => (h.iterate (d := False) _ _ _ _ _).stable,
    fun _ _ _ _ => (h.loop (d := False) _ _ _ _).stable⟩

/-- Declaring fields changes no function either. -/
theorem stable_declareFields (pass : Pass) (fuel : Nat) (ps : List FieldPlace) :
    Stable (ps.forM (pass.declareFieldPlace fuel)) :=
  (keeps_forM (keeps_declareFieldPlace pass fuel) ps).stable

/-! ### Values of arguments -/

/-- As many expressions, as many values. -/
theorem length_of_evalAll {pass : Pass} {locals : Locals} {fuel : Nat} {es : List Expr}
    {σ τ : Store} {vs : List Value} (h : evalAll pass locals fuel es σ = .ok vs τ) :
    vs.length = es.length := by
  induction es generalizing fuel σ vs with
  | nil =>
    cases fuel with
    | zero => cases h
    | succ fuel =>
      cases h
      rfl
  | cons e es ih =>
    cases fuel with
    | zero => cases h
    | succ fuel =>
      simp only [evalAll] at h
      obtain ⟨v, ρ, -, h⟩ := Eval.bind_ok.mp h
      obtain ⟨ws, υ, hws, h⟩ := Eval.bind_ok.mp h
      cases h
      simp only [List.length_cons, ih hws]

end Parlance
