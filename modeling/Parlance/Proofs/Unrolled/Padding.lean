/-
Empty frames in between.

A frame without variables that stands among the frames of a running method is passed over when a
variable is looked up or set, and nothing is declared in it as long as it is not the innermost one.
So what runs inside of it comes to the same without it, and leaves the same frames but for this one.

A block, an iteration and a loop body open frames of their own.  Whatever they run is therefore
inside of such a frame even if it was the innermost one before.
-/
import Parlance.Proofs.Paired.Pairing

namespace Parlance

/-- The second frames are the first ones and an empty one, inside of which there are so many. -/
inductive Padded : Nat → Locals → Locals → Prop
  | here {ls : Locals} : Padded 0 ls ([] :: ls)
  | there {k : Nat} {f : Frame} {ls ls' : Locals} (h : Padded k ls ls') :
      Padded (k + 1) (f :: ls) (f :: ls')

namespace Padded

variable {k : Nat} {ls ls' : Locals}

theorem get?_eq (h : Padded k ls ls') (n : Name) : ls'.get? n = ls.get? n := by
  induction h with
  | here => rfl
  | there _ ih => simp only [Locals.get?, ih]

theorem set (h : Padded k ls ls') (n : Name) (v : Value) : Padded k (ls.set n v) (ls'.set n v) := by
  induction h with
  | here => exact .here
  | @there k f ls ls' h ih =>
    cases hf : Frame.get? f n with
    | some w => simpa only [Locals.set, hf] using .there h
    | none => simpa only [Locals.set, hf] using .there ih

/-- The innermost frame is dropped. -/
theorem leave (h : Padded (k + 1) ls ls') : Padded k ls.tail ls'.tail := by
  cases h with
  | there h => exact h

end Padded

/-- Outcomes with such frames. -/
inductive Outcome.Padded (k : Nat) : Outcome → Outcome → Prop
  | completed {ls ls' : Locals} (h : Parlance.Padded k ls ls') :
      Outcome.Padded k (.completed ls) (.completed ls')
  | returned {v : Value} : Outcome.Padded k (.returned v) (.returned v)

open Pairing

/-- With so much fuel, what runs inside of an empty frame comes to the same without it. -/
structure PaddedAt (n : Nat) : Prop where
  eval : ∀ {pass k ls ls'} e, Padded k ls ls' → eval pass ls' n e = eval pass ls n e
  evalAll : ∀ {pass k ls ls'} es, Padded k ls ls' → evalAll pass ls' n es = evalAll pass ls n es
  exec : ∀ {pass k ls ls'} s, Padded (k + 1) ls ls' →
    (along id).Together (Outcome.Padded (k + 1)) (exec pass n ls s) (exec pass n ls' s)
  execAll : ∀ {pass k ls ls'} ss, Padded (k + 1) ls ls' →
    (along id).Together (Outcome.Padded (k + 1)) (execAll pass n ls ss) (execAll pass n ls' ss)
  block : ∀ {pass k ls ls'} frame ss, Padded k ls ls' →
    (along id).Together (Outcome.Padded k) (block pass n ls frame ss) (block pass n ls' frame ss)
  iterate : ∀ {pass k ls ls'} name items ss, Padded k ls ls' →
    (along id).Together (Outcome.Padded k) (iterate pass n ls name items ss)
      (iterate pass n ls' name items ss)
  loop : ∀ {pass k ls ls'} e ss, Padded k ls ls' →
    (along id).Together (Outcome.Padded k) (loop pass n ls e ss) (loop pass n ls' e ss)

theorem paddedAt_zero : PaddedAt 0 := by
  refine ⟨fun e _ => ?_, fun es _ => ?_, fun s _ => ?_, fun ss _ => ?_, fun f ss _ => ?_,
    fun name items ss _ => ?_, fun e ss _ => ?_⟩
  · rw [Parlance.eval, Parlance.eval]
  · rw [Parlance.evalAll, Parlance.evalAll]
  · rw [Parlance.exec, Parlance.exec]
    exact together_outOfFuel
  · rw [Parlance.execAll, Parlance.execAll]
    exact together_outOfFuel
  · rw [Parlance.block, Parlance.block]
    exact together_outOfFuel
  · rw [Parlance.iterate, Parlance.iterate]
    exact together_outOfFuel
  · rw [Parlance.loop, Parlance.loop]
    exact together_outOfFuel

namespace PaddedAt

variable {n k : Nat} (ih : PaddedAt n) {pass : Pass} {ls ls' : Locals}
include ih

theorem eval_succ (e : Expr) (h : Padded k ls ls') :
    Parlance.eval pass ls' (n + 1) e = Parlance.eval pass ls (n + 1) e := by
  cases e with
  | access name v t => simp only [Parlance.eval, h.get?_eq]
  | _ => simp only [Parlance.eval, ih.eval _ h, ih.evalAll _ h]

theorem evalAll_succ (es : List Expr) (h : Padded k ls ls') :
    Parlance.evalAll pass ls' (n + 1) es = Parlance.evalAll pass ls (n + 1) es := by
  cases es with
  | nil => rw [Parlance.evalAll, Parlance.evalAll]
  | cons e es => simp only [Parlance.evalAll, ih.eval _ h, ih.evalAll _ h]

theorem exec_succ (s : Stmt) (h : Padded (k + 1) ls ls') :
    (along id).Together (Outcome.Padded (k + 1)) (Parlance.exec pass (n + 1) ls s)
      (Parlance.exec pass (n + 1) ls' s) := by
  have declared (name : Name) (v : Value) : (along id).Together (Outcome.Padded (k + 1))
      (do return .completed (← Eval.declare pass ls name v))
      (do return .completed (← Eval.declare pass ls' name v)) := by
    cases h with
    | there h =>
      -- There is a frame inside of the empty one, and the variable goes there.
      simp only [Eval.declare, bind_assoc, pure_bind]
      exact together_bind_same fun f => together_pure (.completed (.there h))
  cases s with
  | expression e =>
    simp only [Parlance.exec, ih.eval _ h]
    exact together_bind_same fun _ => together_pure (.completed h)
  | declaration name typeName value x =>
    cases value with
    | none => exact declared name .nil
    | some e =>
      simp only [Parlance.exec, ih.eval _ h]
      exact together_bind_same fun v => declared name v
  | assignment target value =>
    cases target with
    | access name x t =>
      simp only [Parlance.exec, h.get?_eq, ih.eval _ h]
      split
      · exact together_bind_same fun v => together_pure (.completed (h.set name v))
      · refine together_bind_same fun s => together_bind_same fun v => ?_
        exact together_bind_same fun _ => together_pure (.completed h)
    | member receiver name x t =>
      simp only [Parlance.exec, ih.eval _ h]
      refine together_bind_same fun owner => together_bind_same fun members => ?_
      refine together_bind_same fun s => together_bind_same fun v => ?_
      exact together_bind_same fun _ => together_pure (.completed h)
    | _ => exact together_throw rfl
  | conditional condition thenBody elseBody =>
    simp only [Parlance.exec, ih.eval _ h]
    exact together_bind_same fun v => together_bind_same fun b => ih.block [] _ h
  | forEach name value body =>
    simp only [Parlance.exec, ih.eval _ h]
    refine together_bind_same fun v => ?_
    cases v with
    | iterable items => exact ih.iterate name items body h
    | _ => exact together_throw rfl
  | whileLoop condition body => exact ih.loop condition body h
  | returning value =>
    simp only [Parlance.exec, ih.eval _ h]
    exact together_bind_same fun v => together_pure .returned
  | hole g => exact together_throw rfl

theorem execAll_succ (ss : List Stmt) (h : Padded (k + 1) ls ls') :
    (along id).Together (Outcome.Padded (k + 1)) (Parlance.execAll pass (n + 1) ls ss)
      (Parlance.execAll pass (n + 1) ls' ss) := by
  cases ss with
  | nil => exact together_pure (.completed h)
  | cons s ss =>
    refine (ih.exec s h).bind fun o o' ho => ?_
    cases ho with
    | completed h => exact ih.execAll ss h
    | returned => exact together_pure .returned

theorem block_succ (frame : Frame) (ss : List Stmt) (h : Padded k ls ls') :
    (along id).Together (Outcome.Padded k) (Parlance.block pass (n + 1) ls frame ss)
      (Parlance.block pass (n + 1) ls' frame ss) := by
  refine (ih.execAll ss (.there h)).bind fun o o' ho => ?_
  cases ho with
  | completed h => exact together_pure (.completed h.leave)
  | returned => exact together_pure .returned

theorem iterate_succ (name : Name) (items : List Int) (ss : List Stmt) (h : Padded k ls ls') :
    (along id).Together (Outcome.Padded k) (Parlance.iterate pass (n + 1) ls name items ss)
      (Parlance.iterate pass (n + 1) ls' name items ss) := by
  cases items with
  | nil => exact together_pure (.completed h)
  | cons i is =>
    refine (ih.block _ ss h).bind fun o o' ho => ?_
    cases ho with
    | completed h => exact ih.iterate name is ss h
    | returned => exact together_pure .returned

theorem loop_succ (e : Expr) (ss : List Stmt) (h : Padded k ls ls') :
    (along id).Together (Outcome.Padded k) (Parlance.loop pass (n + 1) ls e ss)
      (Parlance.loop pass (n + 1) ls' e ss) := by
  simp only [Parlance.loop, ih.eval _ h]
  refine together_bind_same fun v => together_bind_same fun b => ?_
  cases b with
  | false => exact together_pure (.completed h)
  | true =>
    refine (ih.block [] ss h).bind fun o o' ho => ?_
    cases ho with
    | completed h => exact ih.loop e ss h
    | returned => exact together_pure .returned

end PaddedAt

/-- **An empty frame in between cannot be observed**, with any amount of fuel. -/
theorem paddedAt (n : Nat) : PaddedAt n := by
  induction n with
  | zero => exact paddedAt_zero
  | succ n ih =>
    exact ⟨ih.eval_succ, ih.evalAll_succ, ih.exec_succ, ih.execAll_succ, ih.block_succ,
      ih.iterate_succ, ih.loop_succ⟩

end Parlance
