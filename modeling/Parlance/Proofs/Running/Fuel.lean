/-
More fuel.

A run that comes to an end is not changed by more fuel, and one that runs out of fuel goes on from
where it was: nothing is ever taken back that has been written, so what a run has written with some
fuel it has written with more.

One evaluation is below another when this holds of them from every store.  There is one rule for
each way in which evaluations are put together, and the functions of the evaluator are compared
together by induction on the smaller amount of fuel.
-/
import Parlance.Proofs.Running.Exits

namespace Parlance

/-- What has been written in the first store has been written in the second one as well. -/
def Store.Writes (σ τ : Store) : Prop :=
  σ.output.toList <+: τ.output.toList

theorem Store.Writes.refl (σ : Store) : σ.Writes σ :=
  List.prefix_refl _

theorem Store.Writes.of_eq {σ τ : Store} (h : τ.output = σ.output) : σ.Writes τ :=
  ⟨[], by rw [List.append_nil, h]⟩

theorem Store.Writes.trans {σ τ υ : Store} (h : σ.Writes τ) (h' : τ.Writes υ) : σ.Writes υ :=
  List.IsPrefix.trans h h'

/-- What has been written stays written. -/
theorem Store.Changes.writes {d : Prop} {σ τ : Store} (h : σ.Changes d τ) : σ.Writes τ := by
  induction h with
  | refl σ => exact .refl σ
  | trans _ _ ih ih' => exact ih.trans ih'
  | write σ t =>
    rw [Store.Writes, Store.write, Text.toList_append]
    exact List.prefix_append _ _
  | setValue σ v x =>
    have kept : (σ.setValue v x).output = σ.output := by
      unfold Store.setValue
      split <;> rfl
    exact .of_eq kept
  | declare _ σ id s => exact .refl σ

namespace Eval

open EStateM (Result)

variable {α β : Type}

/-- The store in which an evaluation has ended. -/
def stored : Result Stop Store α → Store
  | .ok _ σ | .error _ σ => σ

/-- The second result is the first one, or the first one is for want of fuel and the second goes on
from there. -/
inductive Approximates : Result Stop Store α → Result Stop Store α → Prop
  | same {r : Result Stop Store α} : Approximates r r
  | short {σ : Store} {r : Result Stop Store α} (h : σ.Writes (stored r)) :
      Approximates (.error .outOfFuel σ) r

/-- An evaluation has an end when it has an answer or a fault. -/
def Ended (r : Result Stop Store α) : Prop :=
  ∀ σ, r ≠ .error .outOfFuel σ

namespace Approximates

variable {r r' r'' : Result Stop Store α}

theorem eq_of_ended (h : Approximates r r') (hr : Ended r) : r' = r := by
  cases h with
  | same => rfl
  | short h => exact absurd rfl (hr _)

theorem writes (h : Approximates r r') : (stored r).Writes (stored r') := by
  cases h with
  | same => exact .refl _
  | short h => exact h

theorem trans (h : Approximates r r') (h' : Approximates r' r'') : Approximates r r'' := by
  cases h with
  | same => exact h'
  | short h => exact .short (h.trans h'.writes)

end Approximates

/-- However the evaluation ends, it takes nothing back that has been written. -/
def Proceeds (x : Eval α) : Prop :=
  ∀ σ : Store, σ.Writes (stored (x σ))

/-- The second evaluation comes to what the first comes to, with as much fuel or more. -/
structure Below (x y : Eval α) : Prop where
  near : ∀ σ, Approximates (x σ) (y σ)
  proceeds : Proceeds y

theorem proceeds_of {x : Eval α} {d : Prop} {Q : α → Prop} (hk : Keeps d x Q) (hs : Stops d x) :
    Proceeds x := by
  intro σ
  cases hx : x σ with
  | ok a τ => exact (hk hx).1.writes
  | error s τ => exact (hs hx).writes

theorem Proceeds.below {x : Eval α} (h : Proceeds x) : Below x x :=
  ⟨fun _ => .same, h⟩

theorem Proceeds.outOfFuel {x : Eval α} (h : Proceeds x) : Below (throw .outOfFuel) x :=
  ⟨fun σ => .short (h σ), h⟩

theorem Below.trans {x y z : Eval α} (h : Below x y) (h' : Below y z) : Below x z :=
  ⟨fun σ => (h.near σ).trans (h'.near σ), h'.proceeds⟩

theorem below_pure (a : α) : Below (pure a) (pure a) :=
  Proceeds.below fun σ => .refl σ

theorem below_throw (s : Stop) : Below (throw s : Eval α) (throw s) :=
  Proceeds.below fun σ => .refl σ

theorem below_lift (r : Except Fault α) : Below (lift r) (lift r) :=
  (proceeds_of (d := True) (keeps_lifted r) (stops_lift r)).below

theorem below_read (r : Store → Except BindingFault α) : Below (read r) (read r) :=
  (proceeds_of (d := True) (keeps_read r) (stops_read r)).below

theorem below_modify {f : Store → Store} (hf : ∀ σ : Store, σ.Writes (f σ)) :
    Below (modify f : Eval Unit) (modify f) :=
  Proceeds.below hf

theorem below_write (t : Text) : Below (write t) (write t) :=
  (proceeds_of (d := True) (keeps_write t) (stops_write t)).below

theorem below_setValue (x : Variable) (v : Value) :
    Below (modify (·.setValue x v) : Eval Unit) (modify (·.setValue x v)) :=
  below_modify fun σ => (Store.Changes.setValue σ x v : σ.Changes True _).writes

theorem below_perform (deed : Deed) : Below deed.perform deed.perform :=
  (proceeds_of (d := True) (keeps_perform deed) (stops_perform deed)).below

theorem below_host (action : HostAction) (vs : List Value) :
    Below (host action vs) (host action vs) :=
  below_perform _

theorem below_declare (pass : Pass) (locals : Locals) (name : Name) (v : Value) :
    Below (declare pass locals name v) (declare pass locals name v) :=
  (proceeds_of (keeps_declare pass locals name v) (stops_declare pass locals name v)).below

theorem Below.bind {x y : Eval α} {f g : α → Eval β} (h : Below x y)
    (hfg : ∀ a, Below (f a) (g a)) : Below (x >>= f) (y >>= g) := by
  have proceeds : Proceeds (y >>= g) := by
    intro σ
    have hy := h.proceeds σ
    cases hr : y σ with
    | ok a ρ =>
      rw [hr] at hy
      rw [bind_apply hr]
      exact hy.trans ((hfg a).proceeds ρ)
    | error s ρ =>
      rw [hr] at hy
      rw [bind_error hr]
      exact hy
  refine ⟨fun σ => ?_, proceeds⟩
  have hxy := h.near σ
  cases hx : x σ with
  | ok a ρ =>
    rw [hx] at hxy
    have hy : y σ = .ok a ρ := hxy.eq_of_ended nofun
    rw [bind_apply hx, bind_apply hy]
    exact (hfg a).near ρ
  | error s ρ =>
    rw [hx] at hxy
    rw [bind_error hx]
    cases s with
    | fault f =>
      have hy : y σ = .error (.fault f) ρ := hxy.eq_of_ended nofun
      rw [bind_error hy]
      exact .same
    | outOfFuel =>
      refine .short (hxy.writes.trans ?_)
      cases hy : y σ with
      | ok a ρ =>
        rw [bind_apply hy]
        exact (hfg a).proceeds ρ
      | error s ρ =>
        rw [bind_error hy]
        exact .refl ρ

end Eval

open Eval

/-! ### The evaluator -/

/-- With the first amount of fuel, each function of the evaluator is below itself with the
second. -/
structure BelowAt (n m : Nat) : Prop where
  eval : ∀ pass locals e, Below (eval pass locals n e) (eval pass locals m e)
  evalAll : ∀ pass locals es, Below (evalAll pass locals n es) (evalAll pass locals m es)
  invoke : ∀ r vs, Below (invoke n r vs) (invoke m r vs)
  exec : ∀ pass locals s, Below (exec pass n locals s) (exec pass m locals s)
  execAll : ∀ pass locals ss, Below (execAll pass n locals ss) (execAll pass m locals ss)
  block : ∀ pass locals frame ss,
    Below (block pass n locals frame ss) (block pass m locals frame ss)
  iterate : ∀ pass locals name items ss,
    Below (iterate pass n locals name items ss) (iterate pass m locals name items ss)
  loop : ∀ pass locals e ss, Below (loop pass n locals e ss) (loop pass m locals e ss)

theorem belowAt_zero (m : Nat) : BelowAt 0 m := by
  have hk := keepsAt m
  have hs := stopsAt m
  refine ⟨fun pass locals e => ?_, fun pass locals es => ?_, fun r vs => ?_,
    fun pass locals s => ?_, fun pass locals ss => ?_, fun pass locals frame ss => ?_,
    fun pass locals name items ss => ?_, fun pass locals e ss => ?_⟩
  · rw [Parlance.eval]
    exact (proceeds_of (d := True) (hk.eval pass locals e) (hs.eval pass locals e)).outOfFuel
  · rw [Parlance.evalAll]
    exact (proceeds_of (d := True) (hk.evalAll pass locals es)
      (hs.evalAll pass locals es)).outOfFuel
  · rw [Parlance.invoke]
    exact (proceeds_of (d := True) (hk.invoke r vs) (hs.invoke r vs)).outOfFuel
  · rw [Parlance.exec]
    exact (proceeds_of (hk.exec pass locals s) (hs.exec pass locals s)).outOfFuel
  · rw [Parlance.execAll]
    exact (proceeds_of (hk.execAll pass locals ss) (hs.execAll pass locals ss)).outOfFuel
  · rw [Parlance.block]
    exact (proceeds_of (d := True) (hk.block pass locals frame ss)
      (hs.block pass locals frame ss)).outOfFuel
  · rw [Parlance.iterate]
    exact (proceeds_of (d := True) (hk.iterate pass locals name items ss)
      (hs.iterate pass locals name items ss)).outOfFuel
  · rw [Parlance.loop]
    exact (proceeds_of (d := True) (hk.loop pass locals e ss)
      (hs.loop pass locals e ss)).outOfFuel

namespace BelowAt

variable {n m : Nat} (ih : BelowAt n m)
include ih

theorem eval_succ (pass : Pass) (locals : Locals) (e : Expr) :
    Below (Parlance.eval pass locals (n + 1) e) (Parlance.eval pass locals (m + 1) e) := by
  cases e with
  | literal v t => exact below_pure v
  | group e t => exact ih.eval pass locals e
  | binary op l r t =>
    refine (ih.eval pass locals l).bind fun left => (below_lift _).bind fun settled => ?_
    cases settled with
    | some b => exact below_pure _
    | none => exact (ih.eval pass locals r).bind fun right => below_lift _
  | access name v t =>
    simp only [Parlance.eval]
    split
    · exact below_pure _
    · exact (below_read _).bind fun s => below_pure _
  | member receiver name v t =>
    refine (ih.eval pass locals receiver).bind fun owner => (below_read _).bind fun members => ?_
    exact (below_read _).bind fun s => below_pure _
  | call name arguments f t =>
    refine (ih.evalAll pass locals arguments).bind fun vs => (below_read _).bind fun r => ?_
    exact ih.invoke r vs
  | memberCall receiver name arguments f t =>
    refine (ih.eval pass locals receiver).bind fun owner =>
      (ih.evalAll pass locals arguments).bind fun vs => (below_read _).bind fun members => ?_
    exact (below_read _).bind fun r => ih.invoke r (owner :: vs)
  | hole h => exact below_throw _

theorem evalAll_succ (pass : Pass) (locals : Locals) (es : List Expr) :
    Below (Parlance.evalAll pass locals (n + 1) es) (Parlance.evalAll pass locals (m + 1) es) := by
  cases es with
  | nil => exact below_pure []
  | cons e es =>
    exact (ih.eval pass locals e).bind fun v => (ih.evalAll pass locals es).bind fun vs =>
      below_pure _

theorem invoke_succ (r : Routine) (vs : List Value) :
    Below (Parlance.invoke (n + 1) r vs) (Parlance.invoke (m + 1) r vs) := by
  obtain ⟨f, i⟩ := r
  cases i with
  | none => exact below_throw _
  | some i =>
    cases i with
    | print =>
      refine (below_lift _).bind fun v => (below_lift _).bind fun t => ?_
      exact (below_write _).bind fun _ => below_pure _
    | host action traced =>
      cases traced with
      | false => exact below_host action vs
      | true =>
        refine (below_lift _).bind fun line => (below_write line).bind fun _ => ?_
        exact below_host action vs
    | method body pass =>
      refine (below_lift _).bind fun frame => (ih.execAll pass [frame] _).bind fun o => ?_
      cases o with
      | returned v => exact below_pure v
      | completed locals => exact below_pure Value.nil

theorem exec_succ (pass : Pass) (locals : Locals) (s : Stmt) :
    Below (Parlance.exec pass (n + 1) locals s) (Parlance.exec pass (m + 1) locals s) := by
  cases s with
  | expression e => exact (ih.eval pass locals e).bind fun _ => below_pure _
  | declaration name typeName value x =>
    have declared (v : Value) :=
      (below_declare pass locals name v).bind fun ls => below_pure (Outcome.completed ls)
    cases value with
    | none => exact (below_pure Value.nil).bind declared
    | some e => exact (ih.eval pass locals e).bind declared
  | assignment target value =>
    have set (x : Variable) := (ih.eval pass locals value).bind fun v =>
      (below_setValue x v).bind fun _ => below_pure (Outcome.completed locals)
    cases target with
    | access name x t =>
      simp only [Parlance.exec]
      split
      · exact (ih.eval pass locals value).bind fun v => below_pure _
      · exact (below_read _).bind fun s => set s.var
    | member receiver name x t =>
      refine (ih.eval pass locals receiver).bind fun owner => (below_read _).bind fun members => ?_
      exact (below_read _).bind fun s => set s.var
    | _ => exact below_throw _
  | conditional condition thenBody elseBody =>
    refine (ih.eval pass locals condition).bind fun v => (below_lift _).bind fun b => ?_
    exact ih.block pass locals [] _
  | forEach name value body =>
    refine (ih.eval pass locals value).bind fun v => ?_
    cases v with
    | iterable items => exact ih.iterate pass locals name items body
    | _ => exact below_throw _
  | whileLoop condition body => exact ih.loop pass locals condition body
  | returning value => exact (ih.eval pass locals value).bind fun v => below_pure _
  | hole h => exact below_throw _

theorem execAll_succ (pass : Pass) (locals : Locals) (ss : List Stmt) :
    Below (Parlance.execAll pass (n + 1) locals ss) (Parlance.execAll pass (m + 1) locals ss) := by
  cases ss with
  | nil => exact below_pure _
  | cons s ss =>
    refine (ih.exec pass locals s).bind fun o => ?_
    cases o with
    | returned v => exact below_pure _
    | completed ls => exact ih.execAll pass ls ss

theorem block_succ (pass : Pass) (locals : Locals) (frame : Frame) (ss : List Stmt) :
    Below (Parlance.block pass (n + 1) locals frame ss)
      (Parlance.block pass (m + 1) locals frame ss) :=
  (ih.execAll pass (frame :: locals) ss).bind fun _ => below_pure _

theorem iterate_succ (pass : Pass) (locals : Locals) (name : Name) (items : List Int)
    (ss : List Stmt) : Below (Parlance.iterate pass (n + 1) locals name items ss)
      (Parlance.iterate pass (m + 1) locals name items ss) := by
  cases items with
  | nil => exact below_pure _
  | cons i is =>
    refine (ih.block pass locals [(name, .integer i)] ss).bind fun o => ?_
    cases o with
    | returned v => exact below_pure _
    | completed ls => exact ih.iterate pass ls name is ss

theorem loop_succ (pass : Pass) (locals : Locals) (e : Expr) (ss : List Stmt) :
    Below (Parlance.loop pass (n + 1) locals e ss) (Parlance.loop pass (m + 1) locals e ss) := by
  refine (ih.eval pass locals e).bind fun v => (below_lift _).bind fun b => ?_
  cases b with
  | false => exact below_pure _
  | true =>
    refine (ih.block pass locals [] ss).bind fun o => ?_
    cases o with
    | returned v => exact below_pure _
    | completed ls => exact ih.loop pass ls e ss

end BelowAt

/-- **More fuel changes no end**, and takes the run on where there was none. -/
theorem belowAt {n m : Nat} (h : n ≤ m) : BelowAt n m := by
  induction n generalizing m with
  | zero => exact belowAt_zero m
  | succ n ih =>
    obtain ⟨m, rfl⟩ := Nat.exists_eq_add_of_le' (Nat.le_trans (Nat.le_add_left 1 n) h)
    have ih := ih (Nat.le_of_succ_le_succ h)
    exact ⟨ih.eval_succ, ih.evalAll_succ, ih.invoke_succ, ih.exec_succ, ih.execAll_succ,
      ih.block_succ, ih.iterate_succ, ih.loop_succ⟩

end Parlance
