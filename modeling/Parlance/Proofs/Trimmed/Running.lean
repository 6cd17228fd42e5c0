/-
Trimmed code runs as before.

A statement that is trimmed, run in the store whose methods are trimmed, does what the statement
does in the store: the outcome is the same, and the store afterwards is the one from before, its
methods trimmed.  The same is said of each function of the evaluator, and all of them are proved
together by induction on the fuel, of which both runs have as much.  Where statements are left out,
a `RETURN` stands before them, and a `RETURN` never completes.
-/
import Parlance.Program
import Parlance.Proofs.Paired.Pairing
import Parlance.Proofs.Store.Revised
import Parlance.Proofs.Syntax.Trim

namespace Parlance

namespace Trimmed

/-- The pairing of a run with one in the store whose methods are trimmed. -/
def pairing : Pairing :=
  .along (Store.revise Method.trim)

/-- Two evaluations, the second one in the trimmed store, come to the same. -/
def Agree {α : Type} (x y : Eval α) : Prop :=
  pairing.Together Eq x y

open Pairing

section Rules

variable {α β : Type}

theorem agree_pure (a : α) : Agree (pure a) (pure a) :=
  together_pure rfl

theorem agree_throw (f : Fault) : Agree (throw (.fault f) : Eval α) (throw (.fault f)) :=
  together_throw rfl

theorem Agree.bind {x y : Eval α} {f g : α → Eval β} (h : Agree x y)
    (hfg : ∀ a, Agree (f a) (g a)) : Agree (x >>= f) (y >>= g) :=
  Together.bind h fun a _ hab => hab ▸ hfg a

theorem agree_lift (r : Except Fault α) : Agree (Eval.lift r) (Eval.lift r) := by
  cases r with
  | ok a => exact agree_pure a
  | error f => exact agree_throw f

/-- What is read in the trimmed store is what is read in the store, through `t`. -/
theorem together_read_map {r s : Store → Except BindingFault α} {t : α → α}
    (h : ∀ σ, s (σ.revise Method.trim) = (r σ).map t) :
    pairing.Together (fun a b => b = t a) (Eval.read r) (Eval.read s) := by
  refine together_read fun σ τ hτ => ?_
  subst hτ
  rw [h]
  cases r σ with
  | ok a => exact .ok rfl
  | error f => exact .fault rfl

/-- What is read does not depend on methods. -/
theorem agree_read {r : Store → Except BindingFault α} (h : ∀ σ, r (σ.revise Method.trim) = r σ) :
    Agree (Eval.read r) (Eval.read r) := by
  refine (together_read_map (t := id) fun σ => ?_).mono fun a b hb => hb.symm
  rw [h]
  cases r σ <;> rfl

/-- A function that is read in the trimmed store runs a trimmed method. -/
theorem agree_read_routine {r : Store → Except BindingFault Routine}
    (h : ∀ σ, r (σ.revise Method.trim) = (r σ).map (Routine.revise Method.trim))
    {f g : Routine → Eval β} (hfg : ∀ s, Agree (f s) (g (s.revise Method.trim))) :
    Agree (Eval.read r >>= f) (Eval.read r >>= g) := by
  refine Together.bind (together_read_map h) ?_
  rintro s _ rfl
  exact hfg s

/-- A declaration reads what the store is to be. -/
theorem agree_read_set {r s : Store → Except BindingFault (α × Store)}
    (h : ∀ σ, s (σ.revise Method.trim) = (r σ).map (Prod.map id (Store.revise Method.trim)))
    {x : Eval β} (hx : Agree x x) :
    Agree (Eval.read r >>= fun a => set a.2 >>= fun _ => x)
      (Eval.read s >>= fun a => set a.2 >>= fun _ => x) := by
  refine Together.bind (together_read_map h) ?_
  rintro a _ rfl _ _ _
  exact hx rfl

theorem agree_modify {f : Store → Store}
    (h : ∀ σ, (f σ).revise Method.trim = f (σ.revise Method.trim)) :
    Agree (modify f : Eval Unit) (modify f) := by
  rintro σ _ rfl
  exact .ok rfl (h σ).symm

end Rules

theorem agree_write (t : Text) : Agree (Eval.write t) (Eval.write t) := by
  have hfault : pairing.faults .encoding .encoding := rfl
  refine (together_write hfault ?_ ?_).mono fun _ _ _ => rfl <;> rintro σ _ rfl <;> rfl

theorem agree_report (r : LogRecord) : Agree (Eval.report r) (Eval.report r) :=
  agree_modify fun _ => rfl

theorem agree_setValue (x : Variable) (v : Value) :
    Agree (modify (·.setValue x v) : Eval Unit) (modify (·.setValue x v)) :=
  agree_modify fun σ => σ.revise_setValue x v

theorem agree_perform (deed : Deed) : Agree deed.perform deed.perform := by
  induction deed with
  | answer v => exact agree_pure v
  | fail cause => exact agree_throw cause
  | look id name next ih =>
    rintro σ _ rfl
    rw [Eval.perform_look, Eval.perform_look, Store.table_revise, Table.slot?_revise]
    exact ih _ rfl
  | set id name v next ih =>
    exact (agree_modify fun σ => σ.revise_setNamed id name v).bind fun _ => ih
  | write t next ih => exact (agree_write t).bind fun _ => ih

theorem agree_host (action : HostAction) (vs : List Value) :
    Agree (Eval.host action vs) (Eval.host action vs) :=
  agree_perform _

theorem agree_declare (pass : Pass) (locals : Locals) (name : Name) (v : Value) :
    Agree (Eval.declare pass locals name v) (Eval.declare pass locals name v) := by
  cases locals with
  | cons frame outer => exact (agree_lift _).bind fun f => agree_pure (f :: outer)
  | nil =>
    exact agree_read_set (fun σ => σ.declareVariable_revise pass.scope.top name none v none)
      (agree_pure [])

/-! ### One lemma to each function of the evaluator -/

/-- With so much fuel, trimmed code does the same. -/
structure AgreesAt (n : Nat) : Prop where
  eval : ∀ pass locals e, Agree (eval pass locals n e) (eval pass locals n e)
  evalAll : ∀ pass locals es, Agree (evalAll pass locals n es) (evalAll pass locals n es)
  invoke : ∀ r vs, Agree (invoke n r vs) (invoke n (r.revise Method.trim) vs)
  exec : ∀ pass locals s, Agree (exec pass n locals s) (exec pass n locals s.trim)
  execAll : ∀ pass locals ss,
    Agree (execAll pass n locals ss) (execAll pass n locals (trimStmts ss))
  block : ∀ pass locals frame ss,
    Agree (block pass n locals frame ss) (block pass n locals frame (trimStmts ss))
  iterate : ∀ pass locals name items ss,
    Agree (iterate pass n locals name items ss) (iterate pass n locals name items (trimStmts ss))
  loop : ∀ pass locals e ss,
    Agree (loop pass n locals e ss) (loop pass n locals e (trimStmts ss))

theorem agreesAt_zero : AgreesAt 0 := by
  refine ⟨?_, ?_, ?_, ?_, ?_, ?_, ?_, ?_⟩
  · intros
    rw [Parlance.eval]
    exact together_outOfFuel
  · intros
    rw [Parlance.evalAll]
    exact together_outOfFuel
  · intros
    rw [Parlance.invoke, Parlance.invoke]
    exact together_outOfFuel
  · intros
    rw [Parlance.exec, Parlance.exec]
    exact together_outOfFuel
  · intros
    rw [Parlance.execAll, Parlance.execAll]
    exact together_outOfFuel
  · intros
    rw [Parlance.block, Parlance.block]
    exact together_outOfFuel
  · intros
    rw [Parlance.iterate, Parlance.iterate]
    exact together_outOfFuel
  · intros
    rw [Parlance.loop, Parlance.loop]
    exact together_outOfFuel

section Succ

variable {n : Nat} (ih : AgreesAt n) (pass : Pass) (locals : Locals)
include ih

theorem eval_agrees (e : Expr) :
    Agree (Parlance.eval pass locals (n + 1) e) (Parlance.eval pass locals (n + 1) e) := by
  cases e with
  | literal v t =>
    rw [Parlance.eval]
    exact agree_pure v
  | group e t =>
    rw [Parlance.eval]
    exact ih.eval pass locals e
  | binary op l r t =>
    rw [Parlance.eval]
    refine (ih.eval pass locals l).bind fun left => (agree_lift _).bind fun settled => ?_
    cases settled with
    | some b => exact agree_pure _
    | none => exact (ih.eval pass locals r).bind fun right => agree_lift _
  | access name x t =>
    rw [Parlance.eval]
    cases locals.get? name with
    | some v =>
      exact agree_pure v
    | none =>
      refine (agree_read fun σ => σ.scopeVariable_revise pass.scope name).bind fun s => ?_
      exact agree_pure s.value
  | member receiver name x t =>
    rw [Parlance.eval]
    refine (ih.eval pass locals receiver).bind fun owner => ?_
    refine (agree_read fun σ => σ.membersOfValue_revise pass.registry owner).bind fun members => ?_
    refine (agree_read fun σ => σ.memberVariable_revise members name).bind fun s => ?_
    exact agree_pure s.value
  | call name arguments f t =>
    rw [Parlance.eval]
    refine (ih.evalAll pass locals arguments).bind fun vs => ?_
    exact agree_read_routine (fun σ => σ.scopeFunction_revise pass.scope name vs.length)
      fun r => ih.invoke r vs
  | memberCall receiver name arguments f t =>
    rw [Parlance.eval]
    refine (ih.eval pass locals receiver).bind fun owner => ?_
    refine (ih.evalAll pass locals arguments).bind fun vs => ?_
    refine (agree_read fun σ => σ.membersOfValue_revise pass.registry owner).bind fun members => ?_
    exact agree_read_routine (fun σ => σ.memberFunction_revise members name (vs.length + 1))
      fun r => ih.invoke r (owner :: vs)
  | hole h =>
    rw [Parlance.eval]
    exact agree_throw _

theorem evalAll_agrees (es : List Expr) :
    Agree (Parlance.evalAll pass locals (n + 1) es) (Parlance.evalAll pass locals (n + 1) es) := by
  cases es with
  | nil =>
    rw [Parlance.evalAll]
    exact agree_pure []
  | cons e es =>
    rw [Parlance.evalAll]
    refine (ih.eval pass locals e).bind fun v => (ih.evalAll pass locals es).bind fun vs => ?_
    exact agree_pure _

omit pass locals in
theorem invoke_agrees (r : Routine) (vs : List Value) :
    Agree (Parlance.invoke (n + 1) r vs) (Parlance.invoke (n + 1) (r.revise Method.trim) vs) := by
  obtain ⟨f, i⟩ := r
  rw [Parlance.invoke, Parlance.invoke]
  cases i with
  | none => exact agree_throw _
  | some i =>
    cases i with
    | print =>
      refine (agree_lift _).bind fun v => (agree_lift _).bind fun t => ?_
      exact (agree_write _).bind fun _ => agree_pure _
    | host action traced =>
      cases traced with
      | false => exact agree_host action vs
      | true =>
        refine (agree_lift _).bind fun line => (agree_write line).bind fun _ => ?_
        exact agree_host action vs
    | method m pass =>
      refine (agree_lift _).bind fun frame => (ih.execAll pass [frame] m.body).bind fun o => ?_
      cases o with
      | returned v => exact agree_pure v
      | completed locals => exact agree_pure Value.nil

theorem exec_agrees (s : Stmt) :
    Agree (Parlance.exec pass (n + 1) locals s) (Parlance.exec pass (n + 1) locals s.trim) := by
  cases s with
  | expression e =>
    rw [Stmt.trim, Parlance.exec]
    exact (ih.eval pass locals e).bind fun _ => agree_pure _
  | declaration name typeName value x =>
    have declared (v : Value) :=
      (agree_declare pass locals name v).bind fun ls => agree_pure (Outcome.completed ls)
    cases value with
    | none =>
      rw [Stmt.trim, Parlance.exec]
      exact (agree_pure Value.nil).bind declared
    | some e =>
      rw [Stmt.trim, Parlance.exec]
      exact (ih.eval pass locals e).bind declared
  | assignment target value =>
    have set (x : Variable) : Agree (do
          let v ← Parlance.eval pass locals n value
          modify (·.setValue x v)
          return Outcome.completed locals) (do
          let v ← Parlance.eval pass locals n value
          modify (·.setValue x v)
          return Outcome.completed locals) :=
      (ih.eval pass locals value).bind fun v => (agree_setValue x v).bind fun _ => agree_pure _
    cases target with
    | access name x t =>
      rw [Stmt.trim, Parlance.exec]
      cases locals.get? name with
      | some old => exact (ih.eval pass locals value).bind fun v => agree_pure _
      | none =>
        exact (agree_read fun σ => σ.scopeVariable_revise pass.scope name).bind fun s => set s.var
    | member receiver name x t =>
      rw [Stmt.trim, Parlance.exec]
      refine (ih.eval pass locals receiver).bind fun owner => ?_
      refine (agree_read fun σ => σ.membersOfValue_revise pass.registry owner).bind
        fun members => ?_
      exact (agree_read fun σ => σ.memberVariable_revise members name).bind fun s => set s.var
    | _ =>
      simp only [Stmt.trim, Parlance.exec]
      exact agree_throw _
  | conditional condition thenBody elseBody =>
    rw [Stmt.trim, Parlance.exec, Parlance.exec]
    refine (ih.eval pass locals condition).bind fun v => (agree_lift _).bind fun b => ?_
    cases b with
    | true => exact ih.block pass locals [] thenBody
    | false => exact ih.block pass locals [] elseBody
  | forEach name value body =>
    rw [Stmt.trim, Parlance.exec, Parlance.exec]
    refine (ih.eval pass locals value).bind fun v => ?_
    cases v with
    | iterable items => exact ih.iterate pass locals name items body
    | _ => exact agree_throw _
  | whileLoop condition body =>
    rw [Stmt.trim, Parlance.exec, Parlance.exec]
    exact ih.loop pass locals condition body
  | returning value =>
    rw [Stmt.trim, Parlance.exec]
    exact (ih.eval pass locals value).bind fun v => agree_pure _
  | hole h =>
    rw [Stmt.trim, Parlance.exec]
    exact agree_throw _

omit ih in
/-- What stands after a `RETURN` is not run. -/
theorem execAll_returning (e : Expr) (ss : List Stmt) :
    Parlance.execAll pass n locals (.returning e :: ss)
      = Parlance.execAll pass n locals [.returning e] := by
  cases n with
  | zero => rw [Parlance.execAll, Parlance.execAll]
  | succ n =>
    rw [Parlance.execAll, Parlance.execAll]
    cases n with
    | zero =>
      rw [Parlance.exec]
      rfl
    | succ n =>
      rw [Parlance.exec, bind_assoc, bind_assoc]
      rfl

theorem execAll_agrees (ss : List Stmt) :
    Agree (Parlance.execAll pass (n + 1) locals ss)
      (Parlance.execAll pass (n + 1) locals (trimStmts ss)) := by
  cases ss with
  | nil =>
    rw [trimStmts, Parlance.execAll]
    exact agree_pure _
  | cons s ss =>
    have first {ss ss' : List Stmt}
        (h : ∀ ls, Agree (Parlance.execAll pass n ls ss) (Parlance.execAll pass n ls ss')) :
        Agree (Parlance.execAll pass (n + 1) locals (s :: ss))
          (Parlance.execAll pass (n + 1) locals (s.trim :: ss')) := by
      rw [Parlance.execAll, Parlance.execAll]
      refine (ih.exec pass locals s).bind fun o => ?_
      cases o with
      | returned v => exact agree_pure _
      | completed ls => exact h ls
    cases hs : s.isReturn with
    | false =>
      rw [trimStmts_cons hs]
      exact first fun ls => ih.execAll pass ls ss
    | true =>
      cases s with
      | returning e =>
        rw [trimStmts, execAll_returning]
        exact first fun ls => ih.execAll pass ls []
      | _ => cases hs

/-! ### Blocks -/

theorem block_agrees (frame : Frame) (ss : List Stmt) :
    Agree (Parlance.block pass (n + 1) locals frame ss)
      (Parlance.block pass (n + 1) locals frame (trimStmts ss)) := by
  rw [Parlance.block, Parlance.block]
  exact (ih.execAll pass (frame :: locals) ss).bind fun o => agree_pure (Eval.leave o)

theorem iterate_agrees (name : Name) (items : List Int) (ss : List Stmt) :
    Agree (Parlance.iterate pass (n + 1) locals name items ss)
      (Parlance.iterate pass (n + 1) locals name items (trimStmts ss)) := by
  cases items with
  | nil =>
    rw [Parlance.iterate, Parlance.iterate]
    exact agree_pure _
  | cons i is =>
    rw [Parlance.iterate, Parlance.iterate]
    refine (ih.block pass locals [(name, .integer i)] ss).bind fun o => ?_
    cases o with
    | returned v => exact agree_pure _
    | completed ls => exact ih.iterate pass ls name is ss

theorem loop_agrees (e : Expr) (ss : List Stmt) :
    Agree (Parlance.loop pass (n + 1) locals e ss)
      (Parlance.loop pass (n + 1) locals e (trimStmts ss)) := by
  rw [Parlance.loop, Parlance.loop]
  refine (ih.eval pass locals e).bind fun v => (agree_lift _).bind fun b => ?_
  cases b with
  | false => exact agree_pure _
  | true =>
    refine (ih.block pass locals [] ss).bind fun o => ?_
    cases o with
    | returned v => exact agree_pure _
    | completed ls => exact ih.loop pass ls e ss

end Succ

/-- **Trimmed code does the same**, with any amount of fuel. -/
theorem agreesAt (n : Nat) : AgreesAt n := by
  induction n with
  | zero => exact agreesAt_zero
  | succ n ih =>
    exact ⟨eval_agrees ih, evalAll_agrees ih, invoke_agrees ih, exec_agrees ih, execAll_agrees ih,
      block_agrees ih, iterate_agrees ih, loop_agrees ih⟩

/-! ### Sources -/

variable (pass : Pass) (fuel : Nat)

theorem agree_forM {α β : Type} {f : α → Eval Unit} {g : β → Eval Unit} {t : α → β}
    (h : ∀ a, Agree (f a) (g (t a))) (as : List α) : Agree (as.forM f) ((as.map t).forM g) := by
  induction as with
  | nil => exact agree_pure ()
  | cons a as ih => exact (h a).bind fun _ => ih

theorem agree_initialValue (e : Option Expr) :
    Agree (pass.initialValue fuel e) (pass.initialValue fuel e) := by
  cases e with
  | none => exact agree_pure Value.nil
  | some e => exact (agreesAt fuel).eval pass [] e

theorem agree_declareFieldPlace (p : FieldPlace) :
    Agree (pass.declareFieldPlace fuel p) (pass.declareFieldPlace fuel p) := by
  have declared (name : Name) (v : Value) :=
    (agree_declare pass [] name v).bind fun _ => agree_pure ()
  have field (f : Field) : Agree (pass.declareField fuel f) (pass.declareField fuel f) :=
    (agree_initialValue pass fuel f.value).bind fun v => declared f.name v
  cases p with
  | field f => exact field f
  | declaration f => exact field f
  | hole h =>
    cases h with
    | unlisted => exact agree_throw _
    | stray s =>
      change Agree (pass.declareStray fuel s) (pass.declareStray fuel s)
      unfold Pass.declareStray
      split
      · exact agree_throw _
      · exact agree_throw _
      · refine (agree_initialValue pass fuel _).bind fun v => ?_
        split
        · exact agree_throw _
        · exact declared _ v

theorem agree_declareMethodPlace (p : MethodPlace) :
    Agree (pass.declareMethodPlace p) (pass.declareMethodPlace p.trim) := by
  have method (m : Method) : Agree (pass.declareMethod m) (pass.declareMethod m.trim) :=
    agree_read_set (fun σ => σ.declareFunction_revise pass.scope.top m.name _ _
      (some (.method m pass)) none) (agree_report _)
  cases p with
  | method m => exact method m
  | untyped m => exact method m
  | hole h => exact agree_throw _

/-- **A trimmed source is evaluated alike** by a pass. -/
theorem agree_evaluate (s : Source) :
    Agree (pass.evaluate fuel s) (pass.evaluate fuel s.trim) := by
  have fields := agree_forM (t := id) (agree_declareFieldPlace pass fuel) s.fields
  rw [List.map_id] at fields
  have methods := agree_forM (t := MethodPlace.trim) (agree_declareMethodPlace pass) s.methods
  have enter : Agree (pass.enter fuel) (pass.enter fuel) := by
    refine agree_read_routine (fun σ => σ.scopeFunction_revise pass.scope "main" 0) fun r => ?_
    refine (agree_report _).bind fun _ => ((agreesAt fuel).invoke r []).bind fun v => ?_
    exact (agree_lift _).bind fun t => (agree_report _).bind fun _ => agree_pure v
  exact (fields.bind fun _ => methods).bind fun _ => enter

/-- A new pass over the trimmed source, in the trimmed store, evaluates it alike. -/
theorem agree_source (s : Source) (host : Host) :
    Agree (s.evaluate host fuel) (s.trim.evaluate host fuel) := by
  rintro σ _ rfl
  have hpass : host.evaluator (σ.revise Method.trim)
      = ((host.evaluator σ).1, (host.evaluator σ).2.revise Method.trim) :=
    σ.newPass_revise host.parent host.registry rfl
  change pairing.Results Eq ((host.evaluator σ).1.evaluate fuel s (host.evaluator σ).2)
    ((host.evaluator (σ.revise Method.trim)).1.evaluate fuel s.trim
      (host.evaluator (σ.revise Method.trim)).2)
  rw [hpass]
  exact agree_evaluate _ fuel s rfl

end Trimmed

end Parlance
