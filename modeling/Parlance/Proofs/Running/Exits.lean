/-
What an evaluation has changed when it stops.

`Keeps` speaks of evaluations that come to an answer.  One that stops, for a fault or because the
fuel has run out, keeps the store as it was when that happened, and by then no more can have been
changed: whatever finished before kept to what it may change, and the part that stopped has done so
at some depth, of which the same is true.  So a statement that stops has declared nothing in a
table, even if it is a declaration; of statements one after the other, those that were completed
before may have.

The induction is the one for answers, with that one at hand wherever a part was finished.
-/
import Parlance.Proofs.Running.Changes

namespace Parlance

namespace Eval

variable {α β : Type} {d : Prop} {Q : α → Prop}

/-- When the evaluation stops, the store has changed in no other way, variables being declared only
if `d` allows it. -/
def Stops (d : Prop) (x : Eval α) : Prop :=
  ∀ ⦃σ s τ⦄, x σ = .error s τ → σ.Changes d τ

theorem Stops.mono {d' : Prop} {x : Eval α} (h : Stops d x) (hd : d → d') : Stops d' x := by
  intro σ s τ hx
  exact (h hx).mono hd

theorem stops_pure (a : α) : Stops d (pure a) := by
  intro σ s τ h
  cases h

theorem stops_throw (s : Stop) : Stops d (throw s : Eval α) := by
  intro σ s τ h
  cases h
  exact .refl σ

/-- Either the first part stops, or the second does after what the first has changed. -/
theorem Stops.bind {x : Eval α} {f : α → Eval β} (hx : Stops d x) (hk : Keeps d x Q)
    (hf : ∀ a, Q a → Stops d (f a)) : Stops d (x >>= f) := by
  intro σ s τ h
  cases ha : x σ with
  | ok a ρ =>
    rw [bind_apply ha] at h
    obtain ⟨hρ, hQ⟩ := hk ha
    exact hρ.trans (hf a hQ h)
  | error s' ρ =>
    rw [bind_error ha] at h
    cases h
    exact hx ha

/-- If the second part cannot stop, the first may change the store as it likes where it is
finished. -/
theorem Stops.last {x : Eval α} {f : α → Eval β} (hx : Stops d x)
    (hf : ∀ a σ s τ, f a σ ≠ .error s τ) : Stops d (x >>= f) := by
  intro σ s τ h
  cases ha : x σ with
  | ok a ρ =>
    rw [bind_apply ha] at h
    exact absurd h (hf a ρ s τ)
  | error s' ρ =>
    rw [bind_error ha] at h
    cases h
    exact hx ha

theorem Stops.bind_pure {x : Eval α} (hx : Stops d x) (f : α → β) :
    Stops d (x >>= fun a => pure (f a)) :=
  hx.last fun _ _ _ _ h => by cases h

theorem stops_lift (r : Except Fault α) : Stops d (lift r) := by
  cases r with
  | ok a => exact stops_pure a
  | error f => exact stops_throw _

theorem stops_read (r : Store → Except BindingFault α) : Stops d (read r) := by
  intro σ s τ h
  change lift ((r σ).mapError .binding) σ = _ at h
  exact stops_lift _ h

theorem stops_modify (f : Store → Store) : Stops d (modify f) := by
  intro σ s τ h
  cases h

theorem stops_write (t : Text) : Stops d (write t) := by
  intro σ s τ h
  by_cases ht : σ.encoding.takes t = true
  · rw [write_taken ht] at h
    cases h
  · rw [write_refused ht] at h
    cases h
    exact .refl σ

/-- By the time a function of the host fails it may have set values and written. -/
theorem stops_perform (deed : Deed) : Stops d deed.perform := by
  induction deed with
  | answer v => exact stops_pure v
  | fail cause => exact stops_throw _
  | look id name next ih =>
    intro σ s τ h
    exact ih _ h
  | set id name v next ih =>
    exact (stops_modify _).bind (keeps_modify fun σ => .setNamed σ id name v) fun _ _ => ih
  | write t next ih => exact (stops_write t).bind (keeps_write t) fun _ _ => ih

theorem stops_host (action : HostAction) (arguments : List Value) :
    Stops d (host action arguments) :=
  stops_perform _

/-- A name that cannot be declared is declared nowhere. -/
theorem stops_declare (pass : Pass) (locals : Locals) (name : Name) (v : Value) :
    Stops d (declare pass locals name v) := by
  cases locals with
  | cons frame outer => exact (stops_lift _).bind_pure _
  | nil => exact (stops_read _).last fun _ _ _ _ h => by cases h

end Eval

open Eval

/-! ### The evaluator -/

/-- With so much fuel, every function of the evaluator has changed no more than that when it
stops. -/
structure StopsAt (fuel : Nat) : Prop where
  eval : ∀ {d} pass locals e, Stops d (eval pass locals fuel e)
  evalAll : ∀ {d} pass locals es, Stops d (evalAll pass locals fuel es)
  invoke : ∀ {d} r vs, Stops d (invoke fuel r vs)
  exec : ∀ {d} pass locals s, Stops d (exec pass fuel locals s)
  execAll : ∀ pass (locals : Locals) ss, Stops (locals = []) (execAll pass fuel locals ss)
  block : ∀ {d} pass locals frame ss, Stops d (block pass fuel locals frame ss)
  iterate : ∀ {d} pass locals name items ss, Stops d (iterate pass fuel locals name items ss)
  loop : ∀ {d} pass locals e ss, Stops d (loop pass fuel locals e ss)

namespace StopsAt

variable {fuel : Nat} (ih : StopsAt fuel) {d : Prop}

include ih

theorem eval_succ (pass : Pass) (locals : Locals) (e : Expr) :
    Stops d (Parlance.eval pass locals (fuel + 1) e) := by
  have kept := (keepsAt fuel).eval (d := d) pass locals
  cases e with
  | literal v t => exact stops_pure v
  | group e t => exact ih.eval pass locals e
  | binary op l r t =>
    refine (ih.eval pass locals l).bind (kept l) fun v _ =>
      (stops_lift _).bind (keeps_lifted _) fun settled _ => ?_
    cases settled with
    | some b => exact stops_pure _
    | none => exact (ih.eval pass locals r).bind (kept r) fun _ _ => stops_lift _
  | access name v t =>
    simp only [Parlance.eval]
    split
    · exact stops_pure _
    · exact (stops_read _).bind_pure _
  | member r name v t =>
    exact (ih.eval pass locals r).bind (kept r) fun _ _ =>
      (stops_read _).bind (keeps_read _) fun _ _ => (stops_read _).bind_pure _
  | call name as f t =>
    exact (ih.evalAll pass locals as).bind ((keepsAt fuel).evalAll pass locals as) fun _ _ =>
      (stops_read _).bind (keeps_read _) fun _ _ => ih.invoke _ _
  | memberCall r name as f t =>
    exact (ih.eval pass locals r).bind (kept r) fun _ _ =>
      (ih.evalAll pass locals as).bind ((keepsAt fuel).evalAll pass locals as) fun _ _ =>
        (stops_read _).bind (keeps_read _) fun _ _ =>
          (stops_read _).bind (keeps_read _) fun _ _ => ih.invoke _ _
  | hole h => exact stops_throw _

theorem evalAll_succ (pass : Pass) (locals : Locals) (es : List Expr) :
    Stops d (Parlance.evalAll pass locals (fuel + 1) es) := by
  cases es with
  | nil => exact stops_pure _
  | cons e es =>
    exact (ih.eval pass locals e).bind ((keepsAt fuel).eval pass locals e) fun _ _ =>
      (ih.evalAll pass locals es).bind_pure _

theorem invoke_succ (r : Routine) (vs : List Value) :
    Stops d (Parlance.invoke (fuel + 1) r vs) := by
  simp only [Parlance.invoke]
  split
  · exact stops_throw _
  · exact (stops_lift _).bind (keeps_lifted _) fun _ _ =>
      (stops_lift _).bind (keeps_lifted _) fun _ _ => (stops_write _).bind_pure _
  · split
    · exact (stops_lift _).bind (keeps_lifted _) fun _ _ =>
        (stops_write _).bind (keeps_write _) fun _ _ => stops_host _ _
    · exact stops_host _ _
  · -- the body has the frame of the parameters
    refine (stops_lift _).bind (keeps_lifted _) fun frame _ =>
      ((ih.execAll _ _ _).mono (absurd · (List.cons_ne_nil _ _))).bind
        (((keepsAt fuel).execAll _ _ _).mono (absurd · (List.cons_ne_nil _ _)))
        fun outcome _ => ?_
    cases outcome with
    | returned v => exact stops_pure v
    | completed locals => exact stops_pure _

theorem exec_succ (pass : Pass) (locals : Locals) (s : Stmt) :
    Stops d (Parlance.exec pass (fuel + 1) locals s) := by
  have stops (e : Expr) := ih.eval (d := d) pass locals e
  have kept (e : Expr) := (keepsAt fuel).eval (d := d) pass locals e
  cases s with
  | expression e => exact (stops e).bind_pure _
  | declaration name typeName value v =>
    cases value with
    | none => exact (stops_declare pass locals name _).bind_pure _
    | some e =>
      exact (stops e).bind (kept e) fun x _ => (stops_declare pass locals name x).bind_pure _
  | assignment target value =>
    simp only [Parlance.exec]
    split
    · split
      · exact (stops value).bind_pure _
      · exact (stops_read _).bind (keeps_read _) fun _ _ =>
          (stops value).bind (kept value) fun _ _ => (stops_modify _).bind_pure _
    · exact (stops _).bind (kept _) fun _ _ => (stops_read _).bind (keeps_read _) fun _ _ =>
        (stops_read _).bind (keeps_read _) fun _ _ =>
          (stops value).bind (kept value) fun _ _ => (stops_modify _).bind_pure _
    · exact stops_throw _
  | conditional e ss ss' =>
    exact (stops e).bind (kept e) fun _ _ => (stops_lift _).bind (keeps_lifted _) fun _ _ =>
      ih.block pass locals _ _
  | forEach name e ss =>
    refine (stops e).bind (kept e) ?_
    intro v _
    split
    · exact ih.iterate pass locals name _ ss
    · exact stops_throw _
  | whileLoop e ss => exact ih.loop pass locals e ss
  | returning e => exact (stops e).bind_pure _
  | hole h => exact stops_throw _

theorem execAll_succ (pass : Pass) (locals : Locals) (ss : List Stmt) :
    Stops (locals = []) (Parlance.execAll pass (fuel + 1) locals ss) := by
  cases ss with
  | nil => exact stops_pure _
  | cons s ss =>
    refine (ih.exec pass locals s).bind (((keepsAt fuel).exec pass locals s).mono And.left) ?_
    intro outcome ho
    cases outcome with
    | returned v => exact stops_pure _
    | completed locals' =>
      exact (ih.execAll pass locals' ss).mono (Locals.eq_nil_iff_of_names ho).mp

theorem block_succ (pass : Pass) (locals : Locals) (frame : Frame) (ss : List Stmt) :
    Stops d (Parlance.block pass (fuel + 1) locals frame ss) :=
  ((ih.execAll pass (frame :: locals) ss).mono (absurd · (List.cons_ne_nil _ _))).bind_pure _

theorem iterate_succ (pass : Pass) (locals : Locals) (name : Name) (items : List Int)
    (ss : List Stmt) : Stops d (Parlance.iterate pass (fuel + 1) locals name items ss) := by
  cases items with
  | nil => exact stops_pure _
  | cons i items =>
    refine (ih.block pass locals _ ss).bind ((keepsAt fuel).block pass locals _ ss) ?_
    intro outcome _
    cases outcome with
    | returned v => exact stops_pure _
    | completed locals' => exact ih.iterate pass locals' name items ss

theorem loop_succ (pass : Pass) (locals : Locals) (e : Expr) (ss : List Stmt) :
    Stops d (Parlance.loop pass (fuel + 1) locals e ss) := by
  refine (ih.eval pass locals e).bind ((keepsAt fuel).eval pass locals e) fun v _ =>
    (stops_lift _).bind (keeps_lifted _) fun b _ => ?_
  cases b with
  | false => exact stops_pure _
  | true =>
    refine (ih.block pass locals _ ss).bind ((keepsAt fuel).block pass locals _ ss) ?_
    intro outcome _
    cases outcome with
    | returned v => exact stops_pure _
    | completed locals' => exact ih.loop pass locals' e ss

end StopsAt

/-- **An evaluation that stops has changed no more than one that goes on**, whatever the fuel. -/
theorem stopsAt (fuel : Nat) : StopsAt fuel := by
  induction fuel with
  | zero => exact ⟨fun _ _ _ => stops_throw _, fun _ _ _ => stops_throw _,
      fun _ _ => stops_throw _, fun _ _ _ => stops_throw _, fun _ _ _ => stops_throw _,
      fun _ _ _ _ => stops_throw _, fun _ _ _ _ _ => stops_throw _,
      fun _ _ _ _ => stops_throw _⟩
  | succ fuel ih =>
    exact ⟨ih.eval_succ, ih.evalAll_succ, ih.invoke_succ, ih.exec_succ, ih.execAll_succ,
      ih.block_succ, ih.iterate_succ, ih.loop_succ⟩

end Parlance
