/-
Ungrouped code runs as before.

A group takes one step, to what it holds, and that is all it does.  So two pieces of code that are
the same ungrouped do the same, but in other numbers of steps: of a group on the first side the
second knows nothing, and where groups stand on the second side they are passed before anything else
is compared.  What an assignment sets is the one place where a group matters, so there it has to
stand on both sides.

The functions of the evaluator are compared together, by induction on the fuel of the first side;
the second has as much as it takes.  Being the same ungrouped goes both ways, and so does what
follows from it.
-/
import Parlance.Proofs.Running.Followed
import Parlance.Proofs.Syntax.Ungroup

namespace Parlance

namespace Ungrouped

open Eval

/-- A method as far as it matters to a run: without groups, but for those that assignments have for
their targets. -/
def core : Method → Method :=
  Method.ungroupWith Expr.ungroupInside

/-- Statements that are the same without groups, but for those that assignments have for their
targets. -/
abbrev SameBody (ss ss' : List Stmt) : Prop :=
  ungroupStmtsWith Expr.ungroupInside ss = ungroupStmtsWith Expr.ungroupInside ss'

/-- One evaluation follows the other, in stores whose methods have the same cores. -/
abbrev Goes {α : Type} (x : Eval α) (y : Nat → Eval α) : Prop :=
  Follows core Eq x y

/-! ### One lemma to each function of the evaluator -/

/-- With so much fuel for the first side, code that is the same ungrouped follows. -/
structure GoesAt (n : Nat) : Prop where
  eval : ∀ pass locals {e e'}, e.ungroup = e'.ungroup →
    Goes (eval pass locals n e) fun m => eval pass locals m e'
  evalAll : ∀ pass locals {es es'}, ungroupExprs es = ungroupExprs es' →
    Goes (evalAll pass locals n es) fun m => evalAll pass locals m es'
  invoke : ∀ {r r' : Routine} vs, r.SameUpTo core r' →
    Goes (invoke n r vs) fun m => invoke m r' vs
  exec : ∀ pass locals {s s' : Stmt},
    s.ungroupWith Expr.ungroupInside = s'.ungroupWith Expr.ungroupInside →
    Goes (exec pass n locals s) fun m => exec pass m locals s'
  execAll : ∀ pass locals {ss ss'}, SameBody ss ss' →
    Goes (execAll pass n locals ss) fun m => execAll pass m locals ss'
  block : ∀ pass locals frame {ss ss'}, SameBody ss ss' →
    Goes (block pass n locals frame ss) fun m => block pass m locals frame ss'
  iterate : ∀ pass locals name items {ss ss'}, SameBody ss ss' →
    Goes (iterate pass n locals name items ss) fun m => iterate pass m locals name items ss'
  loop : ∀ pass locals {e e' : Expr} {ss ss'}, e.ungroup = e'.ungroup → SameBody ss ss' →
    Goes (loop pass n locals e ss) fun m => loop pass m locals e' ss'

theorem goesAt_zero : GoesAt 0 where
  eval pass locals _ e' _ := follows_outOfFuel fun h => (belowAt h).eval pass locals e'
  evalAll pass locals _ es' _ := follows_outOfFuel fun h => (belowAt h).evalAll pass locals es'
  invoke vs _ := follows_outOfFuel fun h => (belowAt h).invoke _ vs
  exec pass locals _ s' _ := follows_outOfFuel fun h => (belowAt h).exec pass locals s'
  execAll pass locals _ ss' _ := follows_outOfFuel fun h => (belowAt h).execAll pass locals ss'
  block pass locals frame _ ss' _ :=
    follows_outOfFuel fun h => (belowAt h).block pass locals frame ss'
  iterate pass locals name items _ ss' _ :=
    follows_outOfFuel fun h => (belowAt h).iterate pass locals name items ss'
  loop pass locals _ e' _ ss' _ _ :=
    follows_outOfFuel fun h => (belowAt h).loop pass locals e' ss'

variable {n : Nat} (ih : GoesAt n) (pass : Pass) (locals : Locals)

/-- Groups are passed on the second side, one step for each of them. -/
theorem goes_of_head {pass : Pass} {locals : Locals} {x : Eval Value} (e' : Expr)
    (h : ∀ e : Expr, e.isGroup = false → e.ungroup = e'.ungroup →
      Goes x fun m => eval pass locals m e) : Goes x fun m => eval pass locals m e' := by
  cases e' with
  | group inner t =>
    have inside : Goes x fun m => eval pass locals m inner := goes_of_head inner h
    exact inside.later 1 fun h => (belowAt h).eval pass locals _
  | _ => exact h _ rfl rfl

section Succ

include ih

theorem eval_goes {e e' : Expr} (h : e.ungroup = e'.ungroup) :
    Goes (Parlance.eval pass locals (n + 1) e) fun m => Parlance.eval pass locals m e' := by
  cases he : e.isGroup with
  | true =>
    cases e with
    | group inner t => exact ih.eval pass locals h
    | _ => cases he
  | false =>
    refine goes_of_head e' fun e'' he'' hu => ?_
    refine Follows.later 1 ?_ fun h => (belowAt h).eval pass locals e''
    cases Expr.matches_of_ungroup_eq he he'' (h.trans hu.symm) with
    | literal v t => exact follows_pure rfl
    | binary op t hl hr =>
      refine (ih.eval pass locals hl).next fun left => (follows_lift _).next fun settled => ?_
      cases settled with
      | some b => exact follows_pure rfl
      | none => exact (ih.eval pass locals hr).next fun right => follows_lift _
    | access name v t =>
      simp only [Parlance.eval]
      cases locals.get? name with
      | some v => exact follows_pure rfl
      | none =>
        exact (follows_read fun σ => σ.scopeVariable_revise pass.scope name).next fun s =>
          follows_pure rfl
    | member name v t hr =>
      refine (ih.eval pass locals hr).next fun owner => ?_
      refine (follows_read fun σ => σ.membersOfValue_revise pass.registry owner).next
        fun members => ?_
      exact (follows_read fun σ => σ.memberVariable_revise members name).next fun s =>
        follows_pure rfl
    | call name f t has =>
      refine (ih.evalAll pass locals has).next fun vs => ?_
      exact follows_read_routine (fun σ => σ.scopeFunction_revise pass.scope name vs.length)
        fun r r' hr => ih.invoke vs hr
    | memberCall name f t hr has =>
      refine (ih.eval pass locals hr).next fun owner => ?_
      refine (ih.evalAll pass locals has).next fun vs => ?_
      refine (follows_read fun σ => σ.membersOfValue_revise pass.registry owner).next
        fun members => ?_
      exact follows_read_routine
        (fun σ => σ.memberFunction_revise members name (vs.length + 1))
        fun r r' hr => ih.invoke (owner :: vs) hr
    | hole g => exact follows_throw _

theorem evalAll_goes {es es' : List Expr} (h : ungroupExprs es = ungroupExprs es') :
    Goes (Parlance.evalAll pass locals (n + 1) es) fun m => Parlance.evalAll pass locals m es' := by
  refine Follows.later 1 ?_ fun h => (belowAt h).evalAll pass locals es'
  cases es with
  | nil =>
    cases es' with
    | nil => exact follows_pure rfl
    | cons e' es' => cases h
  | cons e es =>
    cases es' with
    | nil => cases h
    | cons e' es' =>
      obtain ⟨he, hes⟩ := List.cons.inj h
      exact (ih.eval pass locals he).next fun v => (ih.evalAll pass locals hes).next fun vs =>
        follows_pure rfl

omit pass locals in
theorem invoke_goes {r r' : Routine} (vs : List Value) (h : r.SameUpTo core r') :
    Goes (Parlance.invoke (n + 1) r vs) fun m => Parlance.invoke m r' vs := by
  refine Follows.later 1 ?_ fun h => (belowAt h).invoke r' vs
  obtain ⟨f, i⟩ := r
  obtain ⟨f', i'⟩ := r'
  obtain ⟨rfl, hi⟩ := Routine.mk.inj h
  cases i with
  | none =>
    cases i' with
    | none => exact follows_throw _
    | some i' => cases hi
  | some i =>
    cases i' with
    | none => cases hi
    | some i' =>
      have hi := Option.some.inj hi
      cases i with
      | print =>
        cases i' with
        | print =>
          refine (follows_lift _).next fun v => (follows_lift _).next fun t => ?_
          exact (follows_write _).next fun _ => follows_pure rfl
        | _ => cases hi
      | host action traced =>
        cases i' with
        | host action' traced' =>
          cases hi
          cases traced with
          | false => exact follows_host action vs
          | true =>
            refine (follows_lift _).next fun line => (follows_write line).next fun _ => ?_
            exact follows_host action vs
        | _ => cases hi
      | method m pass =>
        cases i' with
        | method m' pass' =>
          obtain ⟨hm, rfl⟩ := Implementation.method.inj hi
          obtain ⟨-, parameters, -, -, body, -⟩ := Method.mk.inj hm
          simp only [Parlance.invoke, parameters]
          refine (follows_lift _).next fun frame => (ih.execAll pass [frame] body).next fun o => ?_
          cases o with
          | returned v => exact follows_pure rfl
          | completed locals => exact follows_pure rfl
        | _ => cases hi

theorem assignment_goes {target target' value value' : Expr}
    (ht : target.ungroupInside = target'.ungroupInside) (hv : value.ungroup = value'.ungroup) :
    Goes (Parlance.exec pass (n + 1) locals (.assignment target value))
      fun m => Parlance.exec pass (m + 1) locals (.assignment target' value') := by
  have set (x : Variable) := (ih.eval pass locals hv).next fun v =>
    (follows_setValue x v).next fun _ => follows_pure (a := Outcome.completed locals) rfl
  obtain ⟨rfl, hgroup⟩ | ht := Expr.matches_of_ungroupInside_eq ht
  · cases target with
    | group inner t => exact follows_throw _
    | _ => cases hgroup
  cases ht with
  | access name x t =>
    simp only [Parlance.exec]
    cases locals.get? name with
    | some old => exact (ih.eval pass locals hv).next fun v => follows_pure rfl
    | none =>
      exact (follows_read fun σ => σ.scopeVariable_revise pass.scope name).next fun s =>
        set s.var
  | member name x t hr =>
    refine (ih.eval pass locals hr).next fun owner => ?_
    refine (follows_read fun σ => σ.membersOfValue_revise pass.registry owner).next
      fun members => ?_
    exact (follows_read fun σ => σ.memberVariable_revise members name).next fun s => set s.var
  | _ => exact follows_throw _

theorem exec_goes {s s' : Stmt}
    (h : s.ungroupWith Expr.ungroupInside = s'.ungroupWith Expr.ungroupInside) :
    Goes (Parlance.exec pass (n + 1) locals s) fun m => Parlance.exec pass m locals s' := by
  refine Follows.later 1 ?_ fun h => (belowAt h).exec pass locals s'
  cases s with
  | expression e =>
    cases s' with
    | expression e' =>
      exact (ih.eval pass locals (Stmt.expression.inj h)).next fun _ => follows_pure rfl
    | _ => simp [Stmt.ungroupWith] at h
  | declaration name typeName value x =>
    cases s' with
    | declaration name' typeName' value' x' =>
      have declared (v : Value) : Goes
          (declare pass locals name v >>= fun ls => pure (Outcome.completed ls))
          fun _ => declare pass locals name v >>= fun ls => pure (Outcome.completed ls) :=
        (follows_declare pass locals name v).next fun ls => follows_pure rfl
      obtain ⟨rfl, rfl, hv, rfl⟩ := Stmt.declaration.inj h
      cases value with
      | none =>
        cases value' with
        | none => exact (follows_pure (a := Value.nil) rfl).next declared
        | some e' => cases hv
      | some e =>
        cases value' with
        | none => cases hv
        | some e' => exact (ih.eval pass locals (Option.some.inj hv)).next declared
    | _ => simp [Stmt.ungroupWith] at h
  | assignment target value =>
    cases s' with
    | assignment target' value' =>
      obtain ⟨ht, hv⟩ := Stmt.assignment.inj h
      exact assignment_goes ih pass locals ht hv
    | _ => simp [Stmt.ungroupWith] at h
  | conditional condition thenBody elseBody =>
    cases s' with
    | conditional condition' thenBody' elseBody' =>
      obtain ⟨hc, ha, hb⟩ := Stmt.conditional.inj h
      refine (ih.eval pass locals hc).next fun v => (follows_lift _).next fun b => ?_
      cases b with
      | true => exact ih.block pass locals [] ha
      | false => exact ih.block pass locals [] hb
    | _ => simp [Stmt.ungroupWith] at h
  | forEach name value body =>
    cases s' with
    | forEach name' value' body' =>
      obtain ⟨rfl, hv, hb⟩ := Stmt.forEach.inj h
      refine (ih.eval pass locals hv).next fun v => ?_
      cases v with
      | iterable items => exact ih.iterate pass locals name items hb
      | _ => exact follows_throw _
    | _ => simp [Stmt.ungroupWith] at h
  | whileLoop condition body =>
    cases s' with
    | whileLoop condition' body' =>
      obtain ⟨hc, hb⟩ := Stmt.whileLoop.inj h
      exact ih.loop pass locals hc hb
    | _ => simp [Stmt.ungroupWith] at h
  | returning value =>
    cases s' with
    | returning value' =>
      exact (ih.eval pass locals (Stmt.returning.inj h)).next fun v => follows_pure rfl
    | _ => simp [Stmt.ungroupWith] at h
  | hole g =>
    cases s' with
    | hole g' =>
      cases h
      exact follows_throw _
    | _ => simp [Stmt.ungroupWith] at h

/-! ### Blocks -/

theorem execAll_goes {ss ss' : List Stmt} (h : SameBody ss ss') :
    Goes (Parlance.execAll pass (n + 1) locals ss)
      fun m => Parlance.execAll pass m locals ss' := by
  refine Follows.later 1 ?_ fun h => (belowAt h).execAll pass locals ss'
  cases ss with
  | nil =>
    cases ss' with
    | nil => exact follows_pure rfl
    | cons s' ss' => cases h
  | cons s ss =>
    cases ss' with
    | nil => cases h
    | cons s' ss' =>
      obtain ⟨hs, hss⟩ := List.cons.inj h
      refine (ih.exec pass locals hs).next fun o => ?_
      cases o with
      | returned v => exact follows_pure rfl
      | completed ls => exact ih.execAll pass ls hss

theorem block_goes (frame : Frame) {ss ss' : List Stmt} (h : SameBody ss ss') :
    Goes (Parlance.block pass (n + 1) locals frame ss)
      fun m => Parlance.block pass m locals frame ss' := by
  refine Follows.later 1 ?_ fun h => (belowAt h).block pass locals frame ss'
  exact (ih.execAll pass (frame :: locals) h).next fun o => follows_pure rfl

theorem iterate_goes (name : Name) (items : List Int) {ss ss' : List Stmt}
    (h : SameBody ss ss') :
    Goes (Parlance.iterate pass (n + 1) locals name items ss)
      fun m => Parlance.iterate pass m locals name items ss' := by
  refine Follows.later 1 ?_ fun h => (belowAt h).iterate pass locals name items ss'
  cases items with
  | nil => exact follows_pure rfl
  | cons i is =>
    refine (ih.block pass locals [(name, .integer i)] h).next fun o => ?_
    cases o with
    | returned v => exact follows_pure rfl
    | completed ls => exact ih.iterate pass ls name is h

theorem loop_goes {e e' : Expr} {ss ss' : List Stmt} (he : e.ungroup = e'.ungroup)
    (h : SameBody ss ss') :
    Goes (Parlance.loop pass (n + 1) locals e ss)
      fun m => Parlance.loop pass m locals e' ss' := by
  refine Follows.later 1 ?_ fun h => (belowAt h).loop pass locals e' ss'
  refine (ih.eval pass locals he).next fun v => (follows_lift _).next fun b => ?_
  cases b with
  | false => exact follows_pure rfl
  | true =>
    refine (ih.block pass locals [] h).next fun o => ?_
    cases o with
    | returned v => exact follows_pure rfl
    | completed ls => exact ih.loop pass ls he h

end Succ

/-- **Code that is the same ungrouped does the same**, whatever the fuel of the first side. -/
theorem goesAt (n : Nat) : GoesAt n := by
  induction n with
  | zero => exact goesAt_zero
  | succ n ih =>
    exact ⟨eval_goes ih, evalAll_goes ih, invoke_goes ih, exec_goes ih, execAll_goes ih,
      block_goes ih, iterate_goes ih, loop_goes ih⟩

/-! ### Sources -/

theorem goes_forM {γ δ : Type} {f : γ → Nat → Eval Unit} {t : γ → δ} {n : Nat}
    (h : ∀ a b, t a = t b → Goes (f a n) (f b)) {as bs : List γ} (hab : as.map t = bs.map t) :
    Goes (as.forM fun a => f a n) fun m => bs.forM fun b => f b m := by
  induction as generalizing bs with
  | nil =>
    cases bs with
    | nil => exact follows_pure rfl
    | cons b bs => cases hab
  | cons a as ih =>
    cases bs with
    | nil => cases hab
    | cons b bs =>
      obtain ⟨ha, has⟩ := List.cons.inj hab
      exact (h a b ha).next fun _ => ih has

theorem goes_initialValue {e e' : Option Expr} (h : e.map Expr.ungroup = e'.map Expr.ungroup) :
    Goes (pass.initialValue n e) fun m => pass.initialValue m e' := by
  cases e with
  | none =>
    cases e' with
    | none => exact follows_pure rfl
    | some e' => cases h
  | some e =>
    cases e' with
    | none => cases h
    | some e' => exact (goesAt n).eval pass [] (Option.some.inj h)

theorem goes_declareFieldPlace {p p' : FieldPlace} (h : p.ungroup = p'.ungroup) :
    Goes (pass.declareFieldPlace n p) fun m => pass.declareFieldPlace m p' := by
  have declared (name : Name) (v : Value) : Goes
      (declare pass [] name v >>= fun _ => pure ())
      fun _ => declare pass [] name v >>= fun _ => pure () :=
    (follows_declare pass [] name v).next fun _ => follows_pure rfl
  have field {f f' : Field} (h : f.ungroup = f'.ungroup) :
      Goes (pass.declareField n f) fun m => pass.declareField m f' := by
    obtain ⟨name, -, value, -⟩ := Field.mk.inj h
    unfold Pass.declareField
    rw [name]
    exact (goes_initialValue pass value).next fun v => declared f'.name v
  cases p with
  | field f =>
    cases p' with
    | field f' => exact field (FieldPlace.field.inj h)
    | _ => cases h
  | declaration f =>
    cases p' with
    | declaration f' => exact field (FieldPlace.declaration.inj h)
    | _ => cases h
  | hole g =>
    cases p' with
    | hole g' =>
      cases h
      cases g with
      | unlisted => exact follows_throw _
      | stray s =>
        change Goes (pass.declareStray n s) fun m => pass.declareStray m s
        unfold Pass.declareStray
        split
        · exact follows_throw _
        · exact follows_throw _
        · refine (goes_initialValue pass rfl).next fun v => ?_
          split
          · exact follows_throw _
          · exact declared _ v
    | _ => cases h

theorem goes_declareMethodPlace {p p' : MethodPlace}
    (h : p.ungroupWith Expr.ungroupInside = p'.ungroupWith Expr.ungroupInside) :
    Goes (pass.declareMethodPlace p) fun _ => pass.declareMethodPlace p' := by
  have method {m m' : Method} (h : core m = core m') :
      Goes (pass.declareMethod m) fun _ => pass.declareMethod m' := by
    obtain ⟨name, parameters, -⟩ := Method.mk.inj h
    exact follows_declareMethod pass h name (congrArg List.length parameters)
  cases p with
  | method m =>
    cases p' with
    | method m' => exact method (MethodPlace.method.inj h)
    | _ => cases h
  | untyped m =>
    cases p' with
    | untyped m' => exact method (MethodPlace.untyped.inj h)
    | _ => cases h
  | hole g =>
    cases p' with
    | hole g' =>
      cases h
      exact follows_throw _
    | _ => cases h

/-- **Sources that are the same ungrouped are evaluated alike** by a pass. -/
theorem goes_evaluate {s s' : Source}
    (h : s.ungroupWith Expr.ungroupInside = s'.ungroupWith Expr.ungroupInside) :
    Goes (pass.evaluate n s) fun m => pass.evaluate m s' := by
  obtain ⟨hfields, hmethods⟩ := Source.mk.inj h
  have fields := goes_forM (f := fun p m => pass.declareFieldPlace m p)
    (fun _ _ hp => goes_declareFieldPlace pass (n := n) hp) hfields
  have methods := goes_forM (f := fun p _ => pass.declareMethodPlace p)
    (fun _ _ hp => goes_declareMethodPlace pass hp) (n := n) hmethods
  have enter : Goes (pass.enter n) fun m => pass.enter m := by
    refine follows_read_routine (fun σ => σ.scopeFunction_revise pass.scope "main" 0)
      fun r r' hr => ?_
    refine (follows_report _).next fun _ => ((goesAt n).invoke [] hr).next fun v => ?_
    exact (follows_lift _).next fun t => (follows_report _).next fun _ => follows_pure rfl
  exact (fields.next fun _ => methods).next fun _ => enter

end Ungrouped

end Parlance
