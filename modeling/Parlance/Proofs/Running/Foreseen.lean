/-
What a run may stop for.

A tree that was read has all of its names and no holes, and with a host that provides values only
every function that can be called is `print` or a method of the tree.  So a run of it, checked or
not, stops for nothing but what is reported with a message, the limits on numbers, and a text that
the stream refuses.

This goes by induction on the fuel, for all functions of the evaluator together: what one of them
calls has one less.  The store stays calm on the way, so that no value is an object.
-/
import Parlance.Proofs.Document.Spelled
import Parlance.Proofs.Operators.Result
import Parlance.Proofs.Store.Faults
import Parlance.Proofs.Terminating.Program

namespace Parlance

open Eval

/-! ### Faults that are foreseen -/

/-- The fault is reported, or it breaks the run off. -/
def Fault.Foreseen (stream : Encoding) (f : Fault) : Prop :=
  (∃ r, f.report = .ok r) ∨ f.Breaks stream

section Faults

variable {stream : Encoding} {f : Fault}

theorem foreseen_of_message {m : Text} (h : f.message? = some m) : f.Foreseen stream :=
  .inl ⟨_, report_of_message h⟩

theorem foreseen_of_name {name : Name} (hname : name ≠ none) (h : f.About name) :
    f.Foreseen stream :=
  .inl (h.reported hname)

theorem foreseen_of_text {v : Value} {l : Limit} (h : v.text = .error l) :
    (Fault.limit l).Foreseen stream := by
  obtain rfl := Value.text_error h
  exact .inr (.inl ⟨_, by decide, rfl⟩)

/-- Faults of this kind tell the kinds of values, which all have names. -/
theorem foreseen_of_wrongKind (h : f.kind = "RuntimeTypeError") : f.Foreseen stream := by
  cases f with
  | raised kind message => exact foreseen_of_message rfl
  | run cause =>
    cases cause <;>
      first | exact foreseen_of_message rfl | exact absurd h (by simp [Fault.kind, RunFault.kind])
  | binding cause => cases cause <;> exact absurd h (by simp [Fault.kind, BindingFault.kind])
  | check cause => cases cause <;> exact absurd h (by simp [Fault.kind, CheckFault.kind])
  | document cause => exact absurd h (by simp [Fault.kind])
  | limit l => exact absurd h (by simp [Fault.kind])
  | encoding => exact absurd h (by simp [Fault.kind])

theorem Refusal.foreseen {o : Operator} {l r : Value} (h : Refusal o l r f) :
    f.Foreseen stream := by
  cases h with
  | wrongKind hk => exact foreseen_of_wrongKind hk
  | integerText | decimalOverflow | quotientOverflow => exact .inr (.inl ⟨_, by decide, rfl⟩)
  | divisionByZero => exact foreseen_of_message rfl

theorem foreseen_of_binarySettled {op : Name} {l : Value} (h : binarySettled op l = .error f) :
    f.Foreseen stream := by
  unfold binarySettled at h
  split at h
  · exact (Operator.settled_refusal (r := l) h).foreseen
  · cases h

theorem foreseen_of_binaryApply {op : Name} {l r : Value} (hop : op ≠ none)
    (h : binaryApply op l r = .error f) : f.Foreseen stream := by
  unfold binaryApply at h
  split at h
  · exact (Operator.apply_refusal h).foreseen
  · cases h
    exact foreseen_of_name hop ⟨_, rfl⟩

end Faults

/-! ### Functions that are ready -/

/-- The function writes the only argument that it takes, or runs a method as documents spell it. -/
inductive Routine.Ready (pass : Pass) (r : Routine) : Prop
  | print (runs : r.implementation? = some .print) (arity : r.function.arity = 1)
  | method {m : Method} (runs : r.implementation? = some (.method m pass))
      (spelled : AllSpelled (MethodPlace.method m).walk)

theorem Routine.Ready.of_runs {pass : Pass} {p : MethodPlace} {r : Routine}
    (hp : AllSpelled p.walk) (h : p.Runs pass r) : r.Ready pass := by
  obtain ⟨m, hm, runs, -⟩ := h
  cases p with
  | method m' =>
    cases hm
    exact .method runs hp
  | untyped m' => exact (hp _ List.mem_cons_self).elim
  | hole h => cases hm

/-- All functions of the pass are ready to be called. -/
def Pass.Ready (pass : Pass) (ρ : Store) : Prop :=
  ∀ r ∈ (ρ.table pass.scope.top).routines, r.Ready pass

variable {pass : Pass} {ρ σ : Store}

theorem hostless_of_ofValue {v : Value} (h : ∃ w, Document.ofValue v = .ok w) : v.Hostless := by
  rintro o rfl
  obtain ⟨w, hw⟩ := h
  cases hw

/-! ### The evaluator -/

/-- The evaluation leaves a calm store, its answer satisfies `Q`, and what it may stop for is
foreseen. -/
abbrev Pass.Foresees {α : Type} (pass : Pass) (ρ : Store) (x : Eval α) (σ : Store)
    (Q : α → Prop) : Prop :=
  Eval.Safe (pass.Calm ρ) (Fault.Foreseen ρ.encoding) x σ Q

theorem foresees_text (v : Value) (hσ : pass.Calm ρ σ) :
    pass.Foresees ρ (Eval.text v) σ fun t => v.text = .ok t := by
  refine safe_lift hσ ((meets_of_error fun f hf => ?_).mono fun t => Except.mapError_ok.mp)
  obtain ⟨l, hl, rfl⟩ := Except.mapError_error.mp hf
  exact foreseen_of_text hl

/-- The members of a value that is no object are those of its kind. -/
theorem foresees_members {α : Type} {owner : Value} (ho : owner.Hostless) (hσ : pass.Calm ρ σ)
    {k : TableId → Eval α} {Q : α → Prop}
    (hk : ∀ id, (σ.table id).Calm → pass.Foresees ρ (k id) σ Q) :
    pass.Foresees ρ (do
      let members ← Eval.read fun σ => σ.membersOfValue pass.registry owner
      k members) σ Q := by
  refine safe_bind_read hσ (fun f hf => ?_) fun id hid => hk id (hσ.membersOfValue ho hid)
  obtain ⟨n, about⟩ := Store.about_of_membersOfValue hf
  exact foreseen_of_name (Option.some_ne_none n) about

/-- The variables among them hold no objects. -/
theorem foresees_member {α : Type} {name : Name} (hname : name ≠ none) {owner : Value}
    (ho : owner.Hostless) (hσ : pass.Calm ρ σ) {k : Slot → Eval α} {Q : α → Prop}
    (hk : ∀ s, s.value.Hostless → pass.Foresees ρ (k s) σ Q) :
    pass.Foresees ρ (do
      let members ← Eval.read fun σ => σ.membersOfValue pass.registry owner
      let s ← Eval.read fun σ => σ.memberVariable members name
      k s) σ Q := by
  refine foresees_members ho hσ fun id hid => ?_
  refine safe_bind_read hσ (fun f hf => ?_) fun s hs => hk s (hid.memberVariable hs)
  exact foreseen_of_name hname (Store.about_of_memberVariable hf)

/-- There are no functions among them. -/
theorem foresees_memberCall {n : Nat} {name : Name} (hname : name ≠ none) {owner : Value}
    {vs : List Value} (ho : owner.Hostless) (hσ : pass.Calm ρ σ) :
    pass.Foresees ρ (do
      let members ← Eval.read fun σ => σ.membersOfValue pass.registry owner
      let r ← Eval.read fun σ => σ.memberFunction members name (vs.length + 1)
      invoke n r (owner :: vs)) σ Value.Hostless := by
  refine foresees_members ho hσ fun id hid => ?_
  refine safe_bind_read hσ (fun f hf => ?_) fun r hr => absurd hr hid.memberFunction
  exact foreseen_of_name hname (Store.about_of_memberFunction hf)

theorem foresees_declare {ls : Locals} {name : Name} (hname : name ≠ none) {v : Value}
    (hv : v.Hostless) (hls : ls.Hostless) (hσ : pass.Calm ρ σ) :
    pass.Foresees ρ (Eval.declare pass ls name v) σ Locals.Hostless := by
  cases ls with
  | nil =>
    simp only [Eval.declare]
    refine safe_bind_read hσ (fun f hf => ?_) fun a ha => ?_
    · exact foreseen_of_name hname (Store.about_of_declareVariable hf)
    · refine safe_bind (safe_modify (hσ.declareVariable hv ha)) fun _ υ _ hυ _ => ?_
      exact safe_pure hυ hls
  | cons frame outer =>
    obtain ⟨hframe, houter⟩ := List.forall_mem_cons.mp hls
    simp only [Eval.declare]
    refine safe_bind (safe_lift hσ (meets_of_error fun f hf => ?_)) fun frame' τ _ hτ hf => ?_
    · obtain ⟨c, hc, rfl⟩ := Except.mapError_error.mp hf
      exact foreseen_of_name hname (Frame.about_of_declare hc)
    · refine safe_pure hτ (List.forall_mem_cons.mpr ⟨?_, houter⟩)
      exact Frame.declare_hostless hframe hv (Except.mapError_ok.mp hf)

/-- With so much fuel, the evaluation of what documents spell stops for nothing else. -/
structure ForeseenAt (pass : Pass) (ρ : Store) (n : Nat) : Prop where
  eval : ∀ {ls σ e}, AllSpelled e.walk → Locals.Hostless ls → pass.Calm ρ σ →
    pass.Foresees ρ (eval pass ls n e) σ Value.Hostless
  evalAll : ∀ {ls σ es}, AllSpelled (walkExprs es) → Locals.Hostless ls → pass.Calm ρ σ →
    pass.Foresees ρ (evalAll pass ls n es) σ fun vs => ∀ v ∈ vs, v.Hostless
  invoke : ∀ {σ r vs}, Routine.Ready pass r → r.function.arity = vs.length →
    (∀ v ∈ vs, v.Hostless) → pass.Calm ρ σ →
    pass.Foresees ρ (invoke n r vs) σ Value.Hostless
  exec : ∀ {ls σ s}, AllSpelled s.walk → Locals.Hostless ls → pass.Calm ρ σ →
    pass.Foresees ρ (exec pass n ls s) σ Outcome.Hostless
  execAll : ∀ {ls σ ss}, AllSpelled (walkStmts ss) → Locals.Hostless ls → pass.Calm ρ σ →
    pass.Foresees ρ (execAll pass n ls ss) σ Outcome.Hostless
  block : ∀ {ls σ frame ss}, AllSpelled (walkStmts ss) → Locals.Hostless (frame :: ls) →
    pass.Calm ρ σ → pass.Foresees ρ (block pass n ls frame ss) σ Outcome.Hostless
  iterate : ∀ {ls σ name items ss}, AllSpelled (walkStmts ss) → Locals.Hostless ls →
    pass.Calm ρ σ → pass.Foresees ρ (iterate pass n ls name items ss) σ Outcome.Hostless
  loop : ∀ {ls σ e ss}, AllSpelled e.walk → AllSpelled (walkStmts ss) → Locals.Hostless ls →
    pass.Calm ρ σ → pass.Foresees ρ (loop pass n ls e ss) σ Outcome.Hostless

namespace ForeseenAt

theorem zero : ForeseenAt pass ρ 0 := by
  refine ⟨?_, ?_, ?_, ?_, ?_, ?_, ?_, ?_⟩
  · intro ls σ e _ _ hσ
    rw [Parlance.eval]
    exact safe_outOfFuel hσ
  · intro ls σ es _ _ hσ
    rw [Parlance.evalAll]
    exact safe_outOfFuel hσ
  · intro σ r vs _ _ _ hσ
    rw [Parlance.invoke]
    exact safe_outOfFuel hσ
  · intro ls σ s _ _ hσ
    rw [Parlance.exec]
    exact safe_outOfFuel hσ
  · intro ls σ ss _ _ hσ
    rw [Parlance.execAll]
    exact safe_outOfFuel hσ
  · intro ls σ frame ss _ _ hσ
    rw [Parlance.block]
    exact safe_outOfFuel hσ
  · intro ls σ name items ss _ _ hσ
    rw [Parlance.iterate]
    exact safe_outOfFuel hσ
  · intro ls σ e ss _ _ _ hσ
    rw [Parlance.loop]
    exact safe_outOfFuel hσ

section Step

variable {n : Nat} (ih : ForeseenAt pass ρ n) {ls : Locals}

include ih

/-! #### Expressions -/

/-- Arguments fit the function that is found for them. -/
theorem call (hρ : pass.Ready ρ) {name : Name} (hname : name ≠ none) {vs : List Value}
    (hvs : ∀ v ∈ vs, v.Hostless) (hσ : pass.Calm ρ σ) :
    pass.Foresees ρ (do
      let r ← Eval.read fun σ => σ.scopeFunction pass.scope name vs.length
      Parlance.invoke n r vs) σ Value.Hostless := by
  refine safe_bind_read hσ (fun f hf => ?_) fun r hr => ?_
  · exact foreseen_of_name hname (Store.about_of_scopeFunction hf)
  · obtain ⟨hmem, harity⟩ := hσ.mem_of_scopeFunction hr
    exact ih.invoke (hρ r hmem) harity hvs hσ

theorem eval_succ (hρ : pass.Ready ρ) {e : Expr} (he : AllSpelled e.walk) (hls : ls.Hostless)
    (hσ : pass.Calm ρ σ) : pass.Foresees ρ (Parlance.eval pass ls (n + 1) e) σ Value.Hostless := by
  cases e with
  | literal v t =>
    rw [Parlance.eval]
    exact safe_pure hσ (hostless_of_ofValue (he _ List.mem_cons_self))
  | group e t =>
    rw [Expr.walk, allSpelled_cons] at he
    rw [Parlance.eval]
    exact ih.eval he.2 hls hσ
  | binary op l r t =>
    rw [Expr.walk, allSpelled_cons, allSpelled_append] at he
    obtain ⟨hop, hl, hr⟩ := he
    simp only [Parlance.eval]
    refine safe_bind (ih.eval hl hls hσ) fun left τ _ hτ _ => ?_
    refine safe_bind (safe_lift hτ (meets_of_error fun f => foreseen_of_binarySettled))
      fun settled υ _ hυ _ => ?_
    cases settled with
    | some b => exact safe_pure hυ (Value.hostless_boolean b)
    | none =>
      refine safe_bind (ih.eval hr hls hυ) fun right ω _ hω _ => ?_
      exact safe_lift hω ((meets_of_error fun f => foreseen_of_binaryApply hop).mono
        fun v => binaryApply_hostless)
  | access name v t =>
    have hname : name ≠ none := he _ List.mem_cons_self
    simp only [Parlance.eval]
    cases hv : ls.get? name with
    | some v => exact safe_pure hσ (hls.get? hv)
    | none =>
      refine safe_bind_read hσ (fun f hf => ?_) fun s hs => safe_pure hσ (hσ.scopeVariable hs)
      exact foreseen_of_name hname (Store.about_of_scopeVariable hf)
  | member receiver name v t =>
    rw [Expr.walk, allSpelled_cons] at he
    simp only [Parlance.eval]
    refine safe_bind (ih.eval he.2 hls hσ) fun owner τ _ hτ ho => ?_
    exact foresees_member he.1 ho hτ fun s hs => safe_pure hτ hs
  | call name arguments f t =>
    rw [Expr.walk, allSpelled_cons] at he
    simp only [Parlance.eval]
    refine safe_bind (ih.evalAll he.2 hls hσ) fun vs τ _ hτ hvs => ?_
    exact ih.call hρ he.1 hvs hτ
  | memberCall receiver name arguments f t =>
    rw [Expr.walk, allSpelled_cons, allSpelled_append] at he
    obtain ⟨hname, hreceiver, harguments⟩ := he
    simp only [Parlance.eval]
    refine safe_bind (ih.eval hreceiver hls hσ) fun owner τ _ hτ ho => ?_
    refine safe_bind (ih.evalAll harguments hls hτ) fun vs υ _ hυ _ => ?_
    exact foresees_memberCall hname ho hυ
  | hole h => exact absurd he h.not_spelled

theorem evalAll_succ {es : List Expr} (hes : AllSpelled (walkExprs es)) (hls : ls.Hostless)
    (hσ : pass.Calm ρ σ) :
    pass.Foresees ρ (Parlance.evalAll pass ls (n + 1) es) σ fun vs => ∀ v ∈ vs, v.Hostless := by
  cases es with
  | nil =>
    rw [Parlance.evalAll]
    exact safe_pure hσ (List.forall_mem_nil _)
  | cons e es =>
    rw [walkExprs, allSpelled_append] at hes
    simp only [Parlance.evalAll]
    refine safe_bind (ih.eval hes.1 hls hσ) fun v τ _ hτ hv => ?_
    refine safe_bind (ih.evalAll hes.2 hls hτ) fun vs υ _ hυ hvs => ?_
    exact safe_pure hυ (List.forall_mem_cons.mpr ⟨hv, hvs⟩)

/-! #### Functions -/

theorem invoke_succ {r : Routine} {vs : List Value} (hr : r.Ready pass)
    (harity : r.function.arity = vs.length) (hvs : ∀ v ∈ vs, v.Hostless) (hσ : pass.Calm ρ σ) :
    pass.Foresees ρ (Parlance.invoke (n + 1) r vs) σ Value.Hostless := by
  cases hr with
  | print runs arity =>
    -- `print` looks at its first argument, and takes one
    obtain ⟨v, rfl⟩ := List.length_eq_one_iff.mp (harity.symm.trans arity)
    simp only [Parlance.invoke, runs]
    refine safe_bind (Q := (· = v)) (safe_lift hσ rfl) fun _ τ _ hτ hv => ?_
    refine safe_bind (foresees_text _ hτ) fun t υ _ hυ _ => ?_
    refine safe_bind (safe_write hυ (hυ.write _) fun ht => ?_) fun _ ω _ hω _ =>
      safe_pure hω Value.hostless_nil
    exact .inr (.inr ⟨rfl, _, hυ.encoding ▸ ht⟩)
  | @method m runs spelled =>
    rw [MethodPlace.walk, allSpelled_cons] at spelled
    obtain ⟨hm, hbody⟩ := spelled
    simp only [Parlance.invoke, runs]
    refine safe_bind (Q := fun frame => ∀ b ∈ frame, b.2.Hostless)
      (safe_lift hσ ((meets_of_error fun f hf => ?_).mono fun frame hframe => ?_))
      fun frame τ _ hτ hframe => ?_
    · obtain ⟨c, hc, rfl⟩ := Except.mapError_error.mp hf
      obtain ⟨b, hb, about⟩ := Frame.about_of_declareAll hc
      exact foreseen_of_name (hm.parameters b.1 (List.of_mem_zip hb).1) about
    · refine Frame.declareAll_hostless (List.forall_mem_nil _) (fun b hb => ?_)
        (Except.mapError_ok.mp hframe)
      exact hvs b.2 (List.of_mem_zip hb).2
    · refine safe_bind (ih.execAll hbody (List.forall_mem_singleton.mpr hframe) hτ)
        fun o υ _ hυ ho => ?_
      cases o with
      | returned v => exact safe_pure hυ ho
      | completed ls => exact safe_pure hυ Value.hostless_nil

/-! #### Statements -/

/-- The value of an expression becomes that of a variable. -/
theorem assign (x : Variable) {e : Expr} (he : AllSpelled e.walk) (hls : ls.Hostless)
    (hσ : pass.Calm ρ σ) :
    pass.Foresees ρ (do
      let v ← Parlance.eval pass ls n e
      modify (·.setValue x v)
      return .completed ls) σ Outcome.Hostless := by
  refine safe_bind (ih.eval he hls hσ) fun v τ _ hτ hv => ?_
  refine safe_bind (safe_modify (hτ.setValue x hv)) fun _ υ _ hυ _ => ?_
  exact safe_pure hυ hls

theorem assignment_succ {target value : Expr}
    (hs : AllSpelled (Stmt.assignment target value).walk) (hls : ls.Hostless)
    (hσ : pass.Calm ρ σ) :
    pass.Foresees ρ (Parlance.exec pass (n + 1) ls (.assignment target value)) σ
      Outcome.Hostless := by
  rw [Stmt.walk, allSpelled_cons, allSpelled_append] at hs
  obtain ⟨-, htarget, hvalue⟩ := hs
  cases target with
  | access name v t =>
    have hname : name ≠ none := htarget _ List.mem_cons_self
    simp only [Parlance.exec]
    cases ls.get? name with
    | some w =>
      refine safe_bind (ih.eval hvalue hls hσ) fun v τ _ hτ hv => ?_
      exact safe_pure hτ (hls.set name hv)
    | none =>
      refine safe_bind_read hσ (fun f hf => ?_) fun s _ => ih.assign s.var hvalue hls hσ
      exact foreseen_of_name hname (Store.about_of_scopeVariable hf)
  | member receiver name v t =>
    rw [Expr.walk, allSpelled_cons] at htarget
    simp only [Parlance.exec]
    refine safe_bind (ih.eval htarget.2 hls hσ) fun owner τ _ hτ ho => ?_
    exact foresees_member htarget.1 ho hτ fun s _ => ih.assign s.var hvalue hls hτ
  | _ =>
    simp only [Parlance.exec]
    exact safe_throw hσ (foreseen_of_message rfl)

/-- The truth of an expression. -/
theorem condition {α : Type} {e : Expr} (he : AllSpelled e.walk) (hls : ls.Hostless)
    (hσ : pass.Calm ρ σ) {k : Bool → Eval α} {Q : α → Prop}
    (hk : ∀ b τ, pass.Calm ρ τ → pass.Foresees ρ (k b) τ Q) :
    pass.Foresees ρ (do
      let b ← Eval.lift (← Parlance.eval pass ls n e).truth
      k b) σ Q := by
  refine safe_bind (ih.eval he hls hσ) fun v τ _ hτ _ => ?_
  refine safe_bind (safe_lift hτ (meets_of_error fun f hf => ?_)) fun b υ _ hυ _ => hk b υ hυ
  exact foreseen_of_wrongKind (Value.truth_error hf)

theorem exec_succ {s : Stmt} (hs : AllSpelled s.walk) (hls : ls.Hostless) (hσ : pass.Calm ρ σ) :
    pass.Foresees ρ (Parlance.exec pass (n + 1) ls s) σ Outcome.Hostless := by
  cases s with
  | expression e =>
    rw [Stmt.walk, allSpelled_cons] at hs
    simp only [Parlance.exec]
    refine safe_bind (ih.eval hs.2 hls hσ) fun v τ _ hτ _ => ?_
    exact safe_pure hτ hls
  | declaration name t value x =>
    rw [Stmt.walk, allSpelled_cons] at hs
    simp only [Parlance.exec]
    have declared {v : Value} {τ : Store} (hτ : pass.Calm ρ τ) (hv : v.Hostless) :
        pass.Foresees ρ (do return .completed (← Eval.declare pass ls name v)) τ
          Outcome.Hostless :=
      safe_bind (foresees_declare hs.1 hv hls hτ) fun ls' υ _ hυ hls' => safe_pure hυ hls'
    cases value with
    | none => exact declared hσ Value.hostless_nil
    | some e => exact safe_bind (ih.eval hs.2 hls hσ) fun v τ _ hτ hv => declared hτ hv
  | assignment target value => exact ih.assignment_succ hs hls hσ
  | conditional c thenBody elseBody =>
    simp only [Stmt.walk, allSpelled_cons, allSpelled_append] at hs
    obtain ⟨-, hc, hthen, helse⟩ := hs
    have hframe : Locals.Hostless ([] :: ls) := hls.enter (List.forall_mem_nil _)
    simp only [Parlance.exec]
    refine ih.condition hc hls hσ fun b τ hτ => ?_
    cases b with
    | true => exact ih.block hthen hframe hτ
    | false => exact ih.block helse hframe hτ
  | forEach name value body =>
    rw [Stmt.walk, allSpelled_cons, allSpelled_append] at hs
    obtain ⟨-, hvalue, hbody⟩ := hs
    simp only [Parlance.exec]
    refine safe_bind (ih.eval hvalue hls hσ) fun v τ _ hτ _ => ?_
    cases v with
    | iterable items => exact ih.iterate hbody hls hτ
    | _ => exact safe_throw hτ (foreseen_of_message rfl)
  | whileLoop c body =>
    rw [Stmt.walk, allSpelled_cons, allSpelled_append] at hs
    rw [Parlance.exec]
    exact ih.loop hs.2.1 hs.2.2 hls hσ
  | returning value =>
    rw [Stmt.walk, allSpelled_cons] at hs
    simp only [Parlance.exec]
    refine safe_bind (ih.eval hs.2 hls hσ) fun v τ _ hτ hv => ?_
    exact safe_pure hτ hv
  | hole h => exact absurd hs h.not_spelled

theorem execAll_succ {ss : List Stmt} (hss : AllSpelled (walkStmts ss)) (hls : ls.Hostless)
    (hσ : pass.Calm ρ σ) :
    pass.Foresees ρ (Parlance.execAll pass (n + 1) ls ss) σ Outcome.Hostless := by
  cases ss with
  | nil =>
    rw [Parlance.execAll]
    exact safe_pure hσ hls
  | cons s ss =>
    rw [walkStmts, allSpelled_append] at hss
    simp only [Parlance.execAll]
    refine safe_bind (ih.exec hss.1 hls hσ) fun o τ _ hτ ho => ?_
    cases o with
    | returned v => exact safe_pure hτ ho
    | completed ls' => exact ih.execAll hss.2 ho hτ

theorem block_succ {frame : Frame} {ss : List Stmt} (hss : AllSpelled (walkStmts ss))
    (hls : Locals.Hostless (frame :: ls)) (hσ : pass.Calm ρ σ) :
    pass.Foresees ρ (Parlance.block pass (n + 1) ls frame ss) σ Outcome.Hostless := by
  simp only [Parlance.block]
  refine safe_bind (ih.execAll hss hls hσ) fun o τ _ hτ ho => ?_
  cases o with
  | returned v => exact safe_pure hτ ho
  | completed ls' => exact safe_pure hτ (Locals.Hostless.tail ho)

theorem iterate_succ {name : Name} {items : List Int} {ss : List Stmt}
    (hss : AllSpelled (walkStmts ss)) (hls : ls.Hostless) (hσ : pass.Calm ρ σ) :
    pass.Foresees ρ (Parlance.iterate pass (n + 1) ls name items ss) σ Outcome.Hostless := by
  cases items with
  | nil =>
    rw [Parlance.iterate]
    exact safe_pure hσ hls
  | cons i items =>
    have hframe : Locals.Hostless ([(name, .integer i)] :: ls) :=
      hls.enter (List.forall_mem_singleton.mpr (Value.hostless_integer i))
    simp only [Parlance.iterate]
    refine safe_bind (ih.block hss hframe hσ) fun o τ _ hτ ho => ?_
    cases o with
    | returned v => exact safe_pure hτ ho
    | completed ls' => exact ih.iterate hss ho hτ

theorem loop_succ {e : Expr} {ss : List Stmt} (he : AllSpelled e.walk)
    (hss : AllSpelled (walkStmts ss)) (hls : ls.Hostless) (hσ : pass.Calm ρ σ) :
    pass.Foresees ρ (Parlance.loop pass (n + 1) ls e ss) σ Outcome.Hostless := by
  have hframe : Locals.Hostless ([] :: ls) := hls.enter (List.forall_mem_nil _)
  simp only [Parlance.loop]
  refine ih.condition he hls hσ fun b τ hτ => ?_
  cases b with
  | false => exact safe_pure hτ hls
  | true =>
    refine safe_bind (ih.block hss hframe hτ) fun o υ _ hυ ho => ?_
    cases o with
    | returned v => exact safe_pure hυ ho
    | completed ls' => exact ih.loop he hss ho hυ

end Step

end ForeseenAt

/-- **Evaluation stops for nothing unforeseen, whatever the fuel.** -/
theorem foreseenAt (hρ : pass.Ready ρ) (n : Nat) : ForeseenAt pass ρ n := by
  induction n with
  | zero => exact .zero
  | succ n ih =>
    exact ⟨ih.eval_succ hρ, ih.evalAll_succ, ih.invoke_succ, ih.exec_succ, ih.execAll_succ,
      ih.block_succ, ih.iterate_succ, ih.loop_succ⟩

/-! ### Programs -/

theorem foresees_declareFieldPlace (hρ : pass.Ready ρ) (fuel : Nat) {p : FieldPlace}
    (hp : AllSpelled p.walk) (hσ : pass.Calm ρ σ) :
    pass.Foresees ρ (pass.declareFieldPlace fuel p) σ fun _ => True := by
  cases p with
  | field f =>
    rw [FieldPlace.walk, allSpelled_cons] at hp
    have hvalue : pass.Foresees ρ (pass.initialValue fuel f.value) σ Value.Hostless := by
      cases he : f.value with
      | none => exact safe_pure hσ Value.hostless_nil
      | some e =>
        rw [he] at hp
        exact (foreseenAt hρ fuel).eval hp.2 (List.forall_mem_nil _) hσ
    refine safe_bind hvalue fun v τ _ hτ hv => ?_
    refine safe_bind (foresees_declare hp.1 hv (List.forall_mem_nil _) hτ) fun _ υ _ hυ _ => ?_
    exact safe_pure hυ trivial
  | declaration f => exact (hp _ List.mem_cons_self).elim
  | hole h => exact absurd hp h.not_spelled

/-- The store is calm, with the functions that it has, and writes to the stream. -/
def Pass.CalmOn (pass : Pass) (stream : Encoding) (σ : Store) : Prop :=
  pass.Calm σ σ ∧ σ.encoding = stream

theorem foresees_declareMethodPlace {p : MethodPlace} (hp : AllSpelled p.walk)
    {stream : Encoding} (hσ : pass.CalmOn stream σ) :
    Safe (pass.CalmOn stream) (Fault.Foreseen stream) (pass.declareMethodPlace p) σ
      fun _ => True := by
  cases p with
  | method m =>
    rw [MethodPlace.walk, allSpelled_cons] at hp
    simp only [Pass.declareMethodPlace, Pass.declareMethod]
    refine safe_bind_read hσ (fun f hf => ?_) fun a ha => ?_
    · exact foreseen_of_name hp.1.name (Store.about_of_declareFunction hf)
    · have ha' : pass.CalmOn stream a.2 :=
        ⟨hσ.1.declareFunction ha, (σ.kept_declareFunction ha).1.trans hσ.2⟩
      refine safe_bind (safe_modify ha') fun _ υ _ hυ _ => ?_
      exact safe_modify ⟨(hυ.1.report _).rebase, hυ.2⟩
  | untyped m => exact (hp _ List.mem_cons_self).elim
  | hole h => exact absurd hp h.not_spelled

theorem foresees_declareSource {s : Source} (hs : AllSpelled s.walk) (hρ : pass.Ready σ)
    (fuel : Nat) (hσ : pass.Calm σ σ) :
    Safe (pass.CalmOn σ.encoding) (Fault.Foreseen σ.encoding) (pass.declareSource fuel s) σ
      fun _ => True := by
  rw [Source.walk, allSpelled_cons, allSpelled_append] at hs
  have hfields : pass.Foresees σ (s.fields.forM (pass.declareFieldPlace fuel)) σ fun _ => True :=
    safe_forM (fun p hp _ => foresees_declareFieldPlace hρ fuel (hs.2.1.of_mem hp)) hσ
  have hcalm : ∀ τ, pass.Calm σ τ → pass.CalmOn σ.encoding τ := fun τ h => ⟨h.rebase, h.encoding⟩
  refine ends_bind (Ends.mono hfields hcalm fun _ _ h => h) fun _ τ _ h => ?_
  exact safe_forM (fun p hp _ => foresees_declareMethodPlace (hs.2.2.of_mem hp)) (hcalm τ h.1)

theorem foresees_enter (hσ : pass.Calm σ σ) (hρ : pass.Ready σ) (fuel : Nat) :
    pass.Foresees σ (pass.enter fuel) σ fun _ => True := by
  refine safe_bind_read hσ (fun f hf => ?_) fun r hr => ?_
  · exact foreseen_of_name (Option.some_ne_none _) (Store.about_of_scopeFunction hf)
  · obtain ⟨hmem, harity⟩ := hσ.mem_of_scopeFunction hr
    refine safe_bind (safe_modify (hσ.report _)) fun _ υ _ hυ _ => ?_
    refine safe_bind ((foreseenAt hρ fuel).invoke (hρ r hmem) harity (List.forall_mem_nil _) hυ)
      fun v ω _ hω _ => ?_
    refine safe_bind (foresees_text v hω) fun t _ _ h _ => ?_
    exact safe_bind (safe_modify (h.report _)) fun _ _ _ h' _ => safe_pure h' trivial

/-- **A tree that was read stops for nothing unforeseen when it runs**, checked or not, with a host
that provides values only. -/
theorem Source.evaluate_foreseen {s : Source} {host : Host} (hs : AllSpelled s.walk)
    (hσ : host.Calm σ) {fuel : Nat} {f : Fault} {τ : Store}
    (hf : s.evaluate host fuel σ = .error (.fault f) τ) : f.Foreseen σ.encoding := by
  have hnew := host.evaluator_spec σ
  have hcalm := hσ.evaluator
  have hready : (host.evaluator σ).1.Ready (host.evaluator σ).2 := by
    unfold Pass.Ready
    rw [hnew.table]
    exact List.forall_mem_singleton.mpr (.print rfl rfl)
  have hstream : (host.evaluator σ).2.encoding = σ.encoding :=
    (σ.stream_newPass host.parent host.registry (some .print)).2
  have hends : Ends (fun _ => True) (Fault.Foreseen σ.encoding)
      ((host.evaluator σ).1.declareSource fuel s >>= fun _ => (host.evaluator σ).1.enter fuel)
      (host.evaluator σ).2 fun _ _ => True := by
    refine ends_bind (Ends.mono (hstream ▸ foresees_declareSource hs hready fuel hcalm)
      (fun _ _ => trivial) fun _ _ h => h) fun _ ρ hdeclared h => ?_
    obtain ⟨hρ, hwrites⟩ := h.1
    suffices hknown : (host.evaluator σ).1.Ready ρ by
      have henter := foresees_enter hρ hknown fuel
      rw [Pass.Foresees, hwrites] at henter
      exact Ends.mono henter (fun _ _ => trivial) fun _ _ _ => trivial
    intro r hr
    obtain ⟨rs, later, hadd, hruns, hlater⟩ :=
      Source.declareSource_functions hdeclared (List.append_nil _).symm
    cases hlater
    rw [hadd.own, hnew.table, List.append_nil] at hr
    rcases List.mem_cons.mp hr with rfl | hr
    · exact .print rfl rfl
    · obtain ⟨p, hp, hrun⟩ := exists_left_of_forall₂ hruns hr
      rw [Source.walk, allSpelled_cons, allSpelled_append] at hs
      exact .of_runs (hs.2.2.of_mem hp) hrun
  exact (hends.fault hf).2

end Parlance
