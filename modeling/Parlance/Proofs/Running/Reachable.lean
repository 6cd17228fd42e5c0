/-
The stores that there can be.

A host begins with the store that has nothing but the reserved tables, and makes tables, registries
and objects, registers types, declares, sets values, writes and reports, in whatever order.  What it
asks of a pass is made of the same steps: a new pass, a check, and all moments of an evaluation, so
that these lead to no other stores.

In each of them a table binds a name to one variable only, and that variable says where it lives.
Only a declaration can bring a variable, and it does so where its name is free.
-/
import Parlance.Proofs.Running.Fuel
import Parlance.Proofs.Store.Bindings
import Parlance.Proofs.Variables.Located

namespace Parlance

namespace Store

/-- A host can come to the store. -/
inductive Reachable : Store → Prop
  | opened (e : Encoding) : Reachable (opened e)
  | newTable {σ : Store} (h : Reachable σ) : Reachable σ.newTable.2
  | newRegistry {σ : Store} (h : Reachable σ) : Reachable σ.newRegistry.2
  | register {σ τ : Store} {r : RegistryId} {name : Text} {targetName : Option Text}
      {members : Option TableId} {t : Ty} (h : Reachable σ)
      (hr : σ.register r name targetName members = .ok (t, τ)) : Reachable τ
  | newObject {σ : Store} (h : Reachable σ) (type : Ty) (members : TableId) :
      Reachable (σ.newObject type members).2
  | declare {σ : Store} (h : Reachable σ) (id : TableId) (d : Declaration) :
      Reachable (σ.declare id d)
  | setValue {σ : Store} (h : Reachable σ) (v : Variable) (x : Value) : Reachable (σ.setValue v x)
  | write {σ : Store} (h : Reachable σ) (t : Text) : Reachable (σ.write t)
  | report {σ : Store} (h : Reachable σ) (record : LogRecord) : Reachable (σ.report record)

/-! ### Variables and their names -/

/-- No table binds a name twice, and each variable is one of the table that it says. -/
structure Sited (σ : Store) : Prop where
  distinct : ∀ id, (σ.vars id).Pairwise fun v w => v.name ≠ w.name
  home : ∀ id, ∀ v ∈ σ.vars id, v.home = .table id

variable {σ τ : Store} {id : TableId}

theorem sited_opened (e : Encoding) : (opened e).Sited := by
  have hvars (id : TableId) : (opened e).vars id = [] := by
    rw [vars, table_opened e id]
    rfl
  refine ⟨fun id => ?_, fun id => ?_⟩ <;> rw [hvars id]
  · exact .nil
  · exact List.forall_mem_nil _

theorem Sited.of_vars (h : σ.Sited) (hvars : τ.vars = σ.vars) : τ.Sited :=
  ⟨hvars ▸ h.distinct, hvars ▸ h.home⟩

theorem Sited.of_table (h : σ.Sited) (htable : ∀ id, τ.table id = σ.table id) : τ.Sited :=
  h.of_vars (funext fun id => by rw [vars, vars, htable id])

/-- A variable is added where its name is free. -/
theorem Sited.addSlot (h : σ.Sited) {s : Slot} (hfree : (σ.table id).slot? s.var.name = none)
    (hhome : s.var.home = .table id) : (σ.modifyTable id fun t => t.addSlot s).Sited := by
  have hcases (other : TableId) : (σ.modifyTable id fun t => t.addSlot s).vars other = σ.vars other
      ∨ other = id ∧ (σ.modifyTable id fun t => t.addSlot s).vars other = σ.vars id ++ [s.var] := by
    unfold vars
    rcases σ.table_modifyTable id other fun t => t.addSlot s with he | ⟨rfl, -, he⟩
    · exact .inl (by rw [he])
    · exact .inr ⟨rfl, by rw [he]; simp [Table.addSlot]⟩
  have hnew : ∀ v ∈ σ.vars id, v.name ≠ s.var.name := by
    intro v hv hname
    obtain ⟨s', hs', rfl⟩ := List.mem_map.mp hv
    have hne := List.find?_eq_none.mp hfree s' hs'
    simp [hname] at hne
  refine ⟨fun other => ?_, fun other => ?_⟩
  · rcases hcases other with he | ⟨rfl, he⟩ <;> rw [he]
    · exact h.distinct other
    · exact List.pairwise_append.mpr ⟨h.distinct other, List.pairwise_singleton _ _,
        fun v hv w hw => List.mem_singleton.mp hw ▸ hnew v hv⟩
  · rcases hcases other with he | ⟨rfl, he⟩ <;> rw [he]
    · exact h.home other
    · exact List.forall_mem_append.mpr ⟨h.home other, List.forall_mem_singleton.mpr hhome⟩

theorem Sited.declare (h : σ.Sited) (id : TableId) (d : Declaration) : (σ.declare id d).Sited := by
  cases d with
  | slot name type value targetName =>
    dsimp only [Store.declare]
    unfold declareVariable
    split
    · exact h
    · next hfree => exact h.addSlot (s := ⟨⟨_, _, _, .table id⟩, _⟩) hfree rfl
  | routine name parameterTypes returnType implementation? targetName =>
    dsimp only [Store.declare]
    unfold declareFunction
    split
    · exact h
    · exact h.of_vars (σ.vars_addRoutine id _)

theorem Sited.register (h : σ.Sited) {r : RegistryId} {name : Text} {targetName : Option Text}
    {members : Option TableId} {t : Ty} (hr : σ.register r name targetName members = .ok (t, τ)) :
    τ.Sited := by
  unfold Store.register at hr
  split at hr
  · cases hr
  · cases members with
    | some id =>
      cases hr
      exact h.of_vars rfl
    | none =>
      cases hr
      exact h.of_vars (vars_newTable σ)

/-- **However a host came to the store, no table binds a name twice.** -/
theorem Reachable.sited (h : σ.Reachable) : σ.Sited := by
  induction h with
  | opened e => exact sited_opened e
  | newTable _ ih => exact ih.of_vars (vars_newTable _)
  | newRegistry _ ih => exact ih.of_table fun id => table_newBuiltins Builtin.all _ id
  | register _ hr ih => exact ih.register hr
  | newObject _ _ _ ih => exact ih.of_vars rfl
  | declare _ id d ih => exact ih.declare id d
  | setValue _ v x ih => exact ih.of_vars (vars_setValue _ v x)
  | write _ _ ih => exact ih.of_vars rfl
  | report _ _ ih => exact ih.of_vars rfl

/-! ### What a pass does -/

/-- What runs only writes and sets values, where it cannot declare. -/
theorem Reachable.changes (h : σ.Reachable) (hc : σ.Changes False τ) : τ.Reachable := by
  induction hc with
  | refl σ => exact h
  | trans _ _ ih ih' => exact ih' (ih h)
  | write σ t => exact h.write t
  | setValue σ v x => exact h.setValue v x
  | declare hd => exact hd.elim

theorem Reachable.declareVariable (h : σ.Reachable) {name : Name} {type : Option Ty} {x : Value}
    {targetName : Option Text} {v : Variable}
    (hd : σ.declareVariable id name type x targetName = .ok (v, τ)) : τ.Reachable := by
  have hdeclare := h.declare id (.slot name type x targetName)
  rwa [Store.declare, hd] at hdeclare

theorem Reachable.declareFunction (h : σ.Reachable) {name : Name} {types : List (Option Ty)}
    {result : Option Ty} {implementation? : Option Implementation} {targetName : Option Text}
    {f : Function}
    (hd : σ.declareFunction id name types result implementation? targetName = .ok (f, τ)) :
    τ.Reachable := by
  have hdeclare := h.declare id (.routine name types result implementation? targetName)
  rwa [Store.declare, hd] at hdeclare

theorem Reachable.newPass (h : σ.Reachable) (parent : Option Scope) (registry : Option RegistryId)
    (print? : Option Implementation) : (σ.newPass parent registry print?).2.Reachable := by
  have hρ : (σ.registryOr registry).2.Reachable := by
    cases registry with
    | none => exact h.newRegistry
    | some id => exact h
  rcases hr : σ.registryOr registry with ⟨id, ρ⟩
  rw [hr] at hρ
  rw [newPass_eq hr]
  have hnew := hρ.newTable.declare ρ.newTable.1
    (.routine "print" [some Builtin.any.type] (some Builtin.nil.type) print?
      (some "System.out.println"))
  unfold Store.declare Store.declareFunction at hnew
  rw [table_newTable_self] at hnew
  exact hnew

/-- The variable of a field is declared where its name is free. -/
theorem Reachable.addVariable (h : σ.Reachable) {pass : Pass} {name : Name} {type : Option Ty}
    {v : Variable} (hd : (pass.context σ).declare name type = .ok v) :
    (pass.addVariable v σ).Reachable := by
  unfold Context.declare at hd
  dsimp only [Pass.context] at hd
  split at hd
  · cases hd
  · next hfree =>
    cases hd
    have hslot := h.declare pass.scope.top (.slot name type .nil none)
    dsimp only [Store.declare] at hslot
    unfold Store.declareVariable at hslot
    rw [hfree] at hslot
    exact hslot

theorem Reachable.checkFieldPlace (h : σ.Reachable) (pass : Pass) (p : FieldPlace) :
    (pass.checkFieldPlace p σ).store.Reachable := by
  have field (f : Field) : (pass.checkField f σ).store.Reachable := by
    unfold Pass.checkField
    dsimp only
    split
    · next hv =>
      obtain ⟨t, -, hd⟩ := Except.bind_ok.mp hv
      exact h.addVariable hd
    · exact h
  cases p with
  | field f => exact field f
  | declaration f => exact field f
  | hole => exact h

theorem Reachable.checkMethodPlace (h : σ.Reachable) (pass : Pass) (p : MethodPlace) :
    (pass.checkMethodPlace p σ).store.Reachable := by
  cases p with
  | method m =>
    simp only [Pass.checkMethodPlace, Checked.map, Pass.checkMethod]
    split
    · exact h
    · split
      · exact h
      · next hd => exact (h.declareFunction hd).report _
  | untyped => exact h
  | hole => exact h

/-- One check after the other, as far as they pass. -/
theorem Reachable.checkInOrder {α : Type} {check : α → Store → Checked α}
    (hcheck : ∀ a σ, Reachable σ → (check a σ).store.Reachable) (as : List α) (h : σ.Reachable) :
    (Parlance.checkInOrder check as σ).store.Reachable := by
  have hout := checkInOrder_upTo (I := fun _ => Reachable) (fun _ a τ hτ _ => hcheck a τ hτ) as h
  generalize Parlance.checkInOrder check as σ = r at hout
  cases hout with
  | all h => exact h
  | stopped _ h => exact hcheck _ _ h

/-- A check leads to no other stores, whether it passes or not. -/
theorem Reachable.analyze (h : σ.Reachable) (s : Source) (host : Host) :
    (s.analyze host σ).store.Reachable := by
  have hpass := h.newPass host.parent host.registry none
  unfold Source.analyze Host.checker Pass.check
  dsimp only
  have hfields := hpass.checkInOrder (fun p τ hτ => hτ.checkFieldPlace
    (σ.newPass host.parent host.registry none).1 p) s.fields
  split
  · exact hpass
  · generalize Parlance.checkInOrder _ s.fields _ = fields at hfields
    split
    · exact hfields
    · have hmethods := hfields.checkInOrder (fun p τ hτ => hτ.checkMethodPlace
        (σ.newPass host.parent host.registry none).1 p) s.methods
      split
      · next hm =>
        rw [hm] at hmethods
        exact hmethods
      · next hm =>
        rw [hm] at hmethods
        exact hmethods.report _

end Store

/-! ### What runs -/

namespace Eval

open Store (Reachable)

variable {α β : Type}

/-- The evaluation leads to no other stores, however it ends. -/
def Stays (x : Eval α) : Prop :=
  ∀ ⦃σ⦄, Reachable σ → Reachable (stored (x σ))

theorem stays_pure (a : α) : Stays (pure a) :=
  fun _ h => h

theorem stays_throw (s : Stop) : Stays (throw s : Eval α) :=
  fun _ h => h

theorem Stays.bind {x : Eval α} {f : α → Eval β} (hx : Stays x) (hf : ∀ a, Stays (f a)) :
    Stays (x >>= f) := by
  intro σ h
  have hρ := hx h
  cases hr : x σ with
  | ok a ρ =>
    rw [hr] at hρ
    rw [bind_apply hr]
    exact hf a hρ
  | error s ρ =>
    rw [hr] at hρ
    rw [bind_error hr]
    exact hρ

/-- Where nothing is declared, values are set and texts written at most. -/
theorem stays_of {x : Eval α} {Q : α → Prop} (hk : Keeps False x Q) (hs : Stops False x) :
    Stays x := by
  intro σ h
  cases hr : x σ with
  | ok a τ => exact h.changes (hk hr).1
  | error s τ => exact h.changes (hs hr)

theorem stays_read (r : Store → Except BindingFault α) : Stays (read r) :=
  stays_of (keeps_read r) (stops_read r)

theorem stays_lift (r : Except Fault α) : Stays (lift r) :=
  stays_of (keeps_lifted r) (stops_lift r)

theorem stays_forM {f : α → Eval Unit} (hf : ∀ a, Stays (f a)) (as : List α) :
    Stays (as.forM f) := by
  induction as with
  | nil => exact stays_pure ()
  | cons a as ih => exact (hf a).bind fun _ => ih

/-- What a declaration has made is taken over. -/
theorem stays_set {γ : Type} {r : Store → Except BindingFault (γ × Store)} {x : Eval β}
    (hr : ∀ ⦃σ c τ⦄, Reachable σ → r σ = .ok (c, τ) → Reachable τ) (hx : Stays x) :
    Stays (do
      let (_, σ) ← read r
      set σ
      x) := by
  intro σ h
  cases hd : r σ with
  | ok p =>
    obtain ⟨c, τ⟩ := p
    have hread : read r σ = .ok (c, τ) σ := by
      change lift ((r σ).mapError .binding) σ = _
      rw [hd]
      rfl
    rw [bind_apply hread]
    exact hx (hr h hd)
  | error f =>
    have hread : read r σ = .error (.fault (.binding f)) σ := by
      change lift ((r σ).mapError .binding) σ = _
      rw [hd]
      rfl
    rw [bind_error hread]
    exact h

/-- A variable outside of all blocks is declared in a table. -/
theorem stays_declare (pass : Pass) (name : Name) (v : Value) :
    Stays (declare pass [] name v) :=
  stays_set (fun _ _ _ h hd => h.declareVariable hd) (stays_pure [])

theorem stays_eval (pass : Pass) (locals : Locals) (fuel : Nat) (e : Expr) :
    Stays (eval pass locals fuel e) :=
  stays_of ((keepsAt fuel).eval pass locals e) ((stopsAt fuel).eval pass locals e)

theorem stays_initialValue (pass : Pass) (fuel : Nat) (value : Option Expr) :
    Stays (pass.initialValue fuel value) := by
  cases value with
  | none => exact stays_pure _
  | some e => exact stays_eval pass [] fuel e

theorem stays_declareFieldPlace (pass : Pass) (fuel : Nat) (p : FieldPlace) :
    Stays (pass.declareFieldPlace fuel p) := by
  have field (f : Field) : Stays (pass.declareField fuel f) :=
    (stays_initialValue pass fuel _).bind fun _ => (stays_declare pass _ _).bind fun _ =>
      stays_pure _
  cases p with
  | field f => exact field f
  | declaration f => exact field f
  | hole h =>
    cases h with
    | unlisted => exact stays_throw _
    | stray s =>
      simp only [Pass.declareFieldPlace, Pass.declareStray]
      split
      · exact stays_throw _
      · exact stays_throw _
      · refine (stays_initialValue pass fuel _).bind fun _ => ?_
        split
        · exact stays_throw _
        · exact (stays_declare pass _ _).bind fun _ => stays_pure _

theorem stays_report (record : LogRecord) : Stays (report record) :=
  fun _ h => h.report record

theorem stays_declareMethodPlace (pass : Pass) (p : MethodPlace) :
    Stays (pass.declareMethodPlace p) := by
  have method (m : Method) : Stays (pass.declareMethod m) :=
    stays_set (fun _ _ _ h hd => h.declareFunction hd) (stays_report _)
  cases p with
  | method m => exact method m
  | untyped m => exact method m
  | hole h => exact stays_throw _

theorem stays_declareSource (pass : Pass) (fuel : Nat) (s : Source) :
    Stays (pass.declareSource fuel s) :=
  (stays_forM (stays_declareFieldPlace pass fuel) s.fields).bind fun _ =>
    stays_forM (stays_declareMethodPlace pass) s.methods

theorem stays_enter (pass : Pass) (fuel : Nat) : Stays (pass.enter fuel) := by
  refine (stays_read _).bind fun main => (stays_report _).bind fun _ => ?_
  refine (stays_of ((keepsAt fuel).invoke main []) ((stopsAt fuel).invoke main [])).bind fun v => ?_
  exact (stays_lift _).bind fun t => (stays_report _).bind fun _ => stays_pure v

end Eval

namespace Store.Reachable

open Eval (stored)

variable {σ : Store}

/-- An evaluation leads to no other stores, however it ends. -/
theorem evaluate (h : σ.Reachable) (s : Source) (host : Host) (fuel : Nat) :
    (stored (s.evaluate host fuel σ)).Reachable := by
  have hpass := h.newPass host.parent host.registry (some .print)
  exact (Eval.stays_declareSource _ fuel s).bind (fun _ => Eval.stays_enter _ fuel) hpass

/-- All moments that an evaluation goes through have such stores. -/
theorem moment (h : σ.Reachable) {s : Source} {host : Host} {fuel : Nat} {m : Moment}
    (hm : s.Reaches host fuel σ m) : m.store.Reachable := by
  have hpass : (host.evaluator σ).2.Reachable :=
    h.newPass host.parent host.registry (some .print)
  refine (hm.of_steps (P := fun m => m.store.Reachable ∧
    ∀ ss, m.task = .stmts ss → m.activation.locals ≠ []) ?_ ?_).1
  · intro m₀ hm₀
    cases hm₀ with
    | @field before _ _ _ _ _ _ hb =>
      have hτ := Eval.stays_forM
        (Eval.stays_declareFieldPlace (host.evaluator σ).1 fuel) before hpass
      rw [hb] at hτ
      exact ⟨hτ, nofun⟩
    | main hd _ =>
      have hτ := Eval.stays_declareSource (host.evaluator σ).1 fuel s hpass
      rw [hd] at hτ
      exact ⟨hτ.report _, nofun⟩
  · rintro m m' hl ⟨hstore, hframe⟩
    refine ⟨hstore.changes (hl.changes.mono ?_), hl.frame hframe⟩
    rintro ⟨ss, ht, hnil⟩
    exact hframe ss ht hnil

end Store.Reachable

end Parlance
