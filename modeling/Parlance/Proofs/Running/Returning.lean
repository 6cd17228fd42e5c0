/-
Statements that always return.

A list of statements definitely returns when it holds a `RETURN`, or a branching both of
whose branches definitely return.  Loops do not count, since their bodies may not run at all.

When such a list comes to an outcome, this is not that it completed.  Nothing has to be
known about types for that: by induction on the fuel, a statement that completes is not one
that definitely returns, and no list completes before all its statements have.
-/
import Parlance.Proofs.Running.Safe

namespace Parlance

mutual

/-- Whether a statement, if it comes to an outcome, is sure to have run a `RETURN`. -/
def Stmt.definitelyReturns : Stmt → Bool
  | .returning _ => true
  | .conditional _ thenBody elseBody =>
    definitelyReturn thenBody && definitelyReturn elseBody
  | _ => false

/-- Whether one of the statements is sure to run a `RETURN`. -/
def definitelyReturn : List Stmt → Bool
  | [] => false
  | s :: ss => s.definitelyReturns || definitelyReturn ss

end

/-- With so much fuel, what completes does not definitely return. -/
structure Completes (fuel : Nat) : Prop where
  stmt : ∀ {pass locals s σ locals' τ}, exec pass fuel locals s σ = .ok (.completed locals') τ →
    s.definitelyReturns = false
  stmts : ∀ {pass locals ss σ locals' τ},
    execAll pass fuel locals ss σ = .ok (.completed locals') τ → definitelyReturn ss = false
  block : ∀ {pass locals frame ss σ locals' τ},
    block pass fuel locals frame ss σ = .ok (.completed locals') τ → definitelyReturn ss = false

theorem completes (fuel : Nat) : Completes fuel := by
  induction fuel with
  | zero =>
    refine ⟨fun h => ?_, fun h => ?_, fun h => ?_⟩
    · rw [exec] at h
      cases h
    · rw [execAll] at h
      cases h
    · rw [Parlance.block] at h
      cases h
  | succ fuel ih =>
    refine ⟨fun {pass locals s σ locals' τ} h => ?_, fun {pass locals ss σ locals' τ} h => ?_,
      fun h => ?_⟩
    · cases s with
      | conditional condition thenBody elseBody =>
        simp only [exec, Eval.bind_ok] at h
        obtain ⟨v, ρ, -, b, ρ', -, h⟩ := h
        have hb := ih.block h
        cases b with
        | false =>
          have he : definitelyReturn elseBody = false := hb
          rw [Stmt.definitelyReturns, he, Bool.and_false]
        | true =>
          have ht : definitelyReturn thenBody = false := hb
          rw [Stmt.definitelyReturns, ht, Bool.false_and]
      | returning value =>
        simp only [exec, Eval.bind_ok] at h
        obtain ⟨v, ρ, -, h⟩ := h
        cases h
      | _ => rfl
    · cases ss with
      | nil => rfl
      | cons s ss =>
        simp only [execAll, Eval.bind_ok] at h
        obtain ⟨o, ρ, hs, h⟩ := h
        cases o with
        | returned v => cases h
        | completed locals' =>
          rw [definitelyReturn, ih.stmt hs, ih.stmts h]
          rfl
    · simp only [Parlance.block, Eval.bind_ok] at h
      obtain ⟨o, ρ, ho, h⟩ := h
      cases o with
      | returned v => cases h
      | completed locals' => exact ih.stmts ho

/-- **What definitely returns does not complete**, whatever the fuel. -/
theorem not_completed {pass : Pass} {fuel : Nat} {locals locals' : Locals} {ss : List Stmt}
    {σ τ : Store} (hr : definitelyReturn ss = true) :
    execAll pass fuel locals ss σ ≠ .ok (.completed locals') τ := by
  intro h
  rw [(completes fuel).stmts h] at hr
  cases hr

end Parlance
