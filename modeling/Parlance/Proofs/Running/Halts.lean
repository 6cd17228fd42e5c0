/-
Evaluations that end.

`Eval.Halts Q x σ` says of an evaluation that is given fuel, `x`, begun in the store `σ`: from some
amount of fuel on it ends, always in the same way, and if that is with an answer, the answer and the
store satisfy `Q`.  So running out of fuel is a matter of too little fuel, and of nothing else.

There is one rule for each way in which the evaluator is put together.
-/
import Parlance.Proofs.Running.Safe

namespace Parlance.Eval

open EStateM (Result)

variable {α β : Type}

/-- The evaluation has ended: with an answer that satisfies `Q`, or with a fault. -/
inductive Halted (Q : α → Store → Prop) : Result Stop Store α → Prop
  | answer {a : α} {τ : Store} (h : Q a τ) : Halted Q (.ok a τ)
  | fault {f : Fault} {τ : Store} : Halted Q (.error (.fault f) τ)

/-- From some amount of fuel on, the evaluation ends, always in the same way. -/
def Halts (Q : α → Store → Prop) (x : Nat → Eval α) (σ : Store) : Prop :=
  ∃ n r, Halted Q r ∧ ∀ fuel, n ≤ fuel → x fuel σ = r

variable {P Q : α → Store → Prop} {x : Nat → Eval α} {σ : Store}

theorem Halted.mono {r : Result Stop Store α} (h : Halted P r) (hPQ : ∀ a τ, P a τ → Q a τ) :
    Halted Q r := by
  cases h with
  | answer h => exact .answer (hPQ _ _ h)
  | fault => exact .fault

theorem Halts.mono (h : Halts P x σ) (hPQ : ∀ a τ, P a τ → Q a τ) : Halts Q x σ := by
  obtain ⟨n, r, hr, hx⟩ := h
  exact ⟨n, r, hr.mono hPQ, hx⟩

/-- What it answers, it answers with some amount of fuel. -/
theorem Halts.reached (h : Halts P x σ) :
    Halts (fun a τ => P a τ ∧ ∃ fuel, x fuel σ = .ok a τ) x σ := by
  obtain ⟨n, r, hr, hx⟩ := h
  refine ⟨n, r, ?_, hx⟩
  cases hr with
  | answer h => exact .answer ⟨h, n, hx n (Nat.le_refl n)⟩
  | fault => exact .fault

/-- An evaluation that needs no fuel. -/
theorem halts_of_halted {y : Eval α} (h : Halted Q (y σ)) : Halts Q (fun _ => y) σ :=
  ⟨0, y σ, h, fun _ _ => rfl⟩

/-- An evaluation that spends one unit of fuel at the first step. -/
theorem Halts.step (h : Halts Q (fun fuel => x (fuel + 1)) σ) : Halts Q x σ := by
  obtain ⟨n, r, hr, hx⟩ := h
  refine ⟨n + 1, r, hr, fun fuel hfuel => ?_⟩
  obtain ⟨k, rfl⟩ := Nat.exists_eq_add_of_le' (Nat.le_trans (Nat.le_add_left 1 n) hfuel)
  exact hx k (Nat.le_of_succ_le_succ hfuel)

theorem halts_pure {a : α} (h : Q a σ) : Halts Q (fun _ => pure a) σ :=
  halts_of_halted (.answer h)

theorem halts_throw {f : Fault} : Halts Q (fun _ => (throw (.fault f) : Eval α)) σ :=
  halts_of_halted .fault

theorem Halts.bind {f : Nat → α → Eval β} {R : β → Store → Prop} (hx : Halts P x σ)
    (hf : ∀ a τ, P a τ → Halts R (fun fuel => f fuel a) τ) :
    Halts R (fun fuel => x fuel >>= f fuel) σ := by
  obtain ⟨n, r, hr, hx⟩ := hx
  cases hr with
  | fault =>
    exact ⟨n, _, .fault, fun fuel hfuel => bind_error (hx fuel hfuel)⟩
  | answer h =>
    obtain ⟨m, r, hr, hf⟩ := hf _ _ h
    refine ⟨max n m, r, hr, fun fuel hfuel => ?_⟩
    exact (bind_apply (hx fuel (Nat.le_trans (Nat.le_max_left n m) hfuel))).trans
      (hf fuel (Nat.le_trans (Nat.le_max_right n m) hfuel))

theorem halts_lift {r : Except Fault α} (h : ∀ a, r = .ok a → Q a σ) :
    Halts Q (fun _ => lift r) σ := by
  cases r with
  | ok a => exact halts_pure (h a rfl)
  | error f => exact halts_throw

theorem halts_read {r : Store → Except BindingFault α} (h : ∀ a, r σ = .ok a → Q a σ) :
    Halts Q (fun _ => read r) σ := by
  refine halts_of_halted ?_
  change Halted Q (lift ((r σ).mapError .binding) σ)
  cases hr : r σ with
  | ok a => exact .answer (h a hr)
  | error f => exact .fault

theorem halts_modify {f : Store → Store} {Q : Unit → Store → Prop} (h : Q () (f σ)) :
    Halts Q (fun _ => (modify f : Eval Unit)) σ :=
  halts_of_halted (.answer h)

theorem halts_write {t : Text} {Q : Unit → Store → Prop} (h : Q () (σ.write t)) :
    Halts Q (fun _ => write t) σ := by
  refine halts_of_halted ?_
  by_cases ht : σ.encoding.takes t = true
  · exact write_taken ht ▸ .answer h
  · exact write_refused ht ▸ .fault

/-- One evaluation after the other, each of which keeps what the next one needs. -/
theorem halts_forM {γ : Type} {f : Nat → γ → Eval Unit} {I : Store → Prop} {cs : List γ}
    (h : ∀ c ∈ cs, ∀ τ, I τ → Halts (fun _ υ => I υ) (fun fuel => f fuel c) τ) (hσ : I σ) :
    Halts (fun _ τ => I τ) (fun fuel => cs.forM (f fuel)) σ := by
  induction cs generalizing σ with
  | nil => exact halts_pure hσ
  | cons c cs ih =>
    obtain ⟨hc, hcs⟩ := List.forall_mem_cons.mp h
    exact (hc σ hσ).bind fun _ τ hτ => ih hcs hτ

end Parlance.Eval
