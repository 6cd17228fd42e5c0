/-
What a check does not look at.

A check reads tables and registries.  What has been written does not matter to it, nor where it
goes, nor the log.  So in stores that have the same tables, registries and objects a check comes to
the same tree and the same verdict, and leaves stores that have again.
-/
import Parlance.Program

namespace Parlance

/-! ### Stores -/

/-- The same store with another stream and another log. -/
def Store.redirect (σ : Store) (stream : Encoding) (log : Array LogRecord) : Store :=
  { σ with encoding := stream, log := log }

/-- The stores differ in their streams and their logs at most. -/
def Store.SameState (σ τ : Store) : Prop :=
  ∃ stream log, τ = σ.redirect stream log

theorem Store.SameState.output {σ τ : Store} (h : σ.SameState τ) : τ.output = σ.output := by
  obtain ⟨stream, log, rfl⟩ := h
  rfl

variable (stream : Encoding) (log : Array LogRecord)

/-! ### Expressions and statements -/

/-- The same place in a store that is directed elsewhere. -/
def Context.redirect (c : Context) : Context :=
  { c with store := c.store.redirect stream log }

theorem Context.extend_redirect (c : Context) (declared : Option Variable) :
    (c.redirect stream log).extend declared = (c.extend declared).redirect stream log := by
  cases declared with
  | none => rfl
  | some v => rfl

namespace Expr

mutual

theorem check_redirect (c : Context) : (e : Expr) → e.check (c.redirect stream log) = e.check c
  | literal v t => rfl
  | group e t => by simp only [check, check_redirect c e]
  | binary op l r t => by simp only [check, check_redirect c l, check_redirect c r]
  | access name v t => rfl
  | member r name v t => by
    simp only [check, check_redirect c r]
    rfl
  | call name as f t => by
    simp only [check, checkAll_redirect c as]
    rfl
  | memberCall r name as f t => by
    simp only [check, checkAll_redirect c as, check_redirect c r]
    rfl
  | hole h => rfl

theorem checkAll_redirect (c : Context) :
    (es : List Expr) → checkAll (c.redirect stream log) es = checkAll c es
  | [] => rfl
  | e :: es => by simp only [checkAll, check_redirect c e, checkAll_redirect c es]

end

end Expr

theorem checkDeclared_redirect (c : Context) (name : Name) (typeName : Option Text)
    (value : Option Expr) :
    checkDeclared (c.redirect stream log) name typeName value
      = checkDeclared c name typeName value := by
  cases value <;> cases typeName <;> simp only [checkDeclared, Expr.check_redirect] <;> rfl

theorem checkCondition_redirect (c : Context) (e : Expr) :
    checkCondition (c.redirect stream log) e = checkCondition c e := by
  rw [checkCondition, checkCondition, Expr.check_redirect]

namespace Stmt

mutual

theorem check_redirect (c : Context) : (s : Stmt) → s.check (c.redirect stream log) = s.check c
  | expression e => by simp only [check, Expr.check_redirect]
  | declaration name typeName value v => by
    simp only [check, checkDeclared_redirect]
    rfl
  | assignment target value => by simp only [check, Expr.check_redirect]
  | conditional condition thenBody elseBody => by
    have hthen := checkAll_redirect (c.enter []) thenBody
    have helse := checkAll_redirect (c.enter []) elseBody
    simp only [check, checkCondition_redirect]
    exact hthen ▸ helse ▸ rfl
  | forEach name value body => by
    have hbody := checkAll_redirect
      (c.enter [⟨name, name, some Builtin.integer.type, .block c.blocks.length⟩]) body
    simp only [check, Expr.check_redirect]
    exact hbody ▸ rfl
  | whileLoop condition body => by
    have hbody := checkAll_redirect (c.enter []) body
    simp only [check, checkCondition_redirect]
    exact hbody ▸ rfl
  | returning value => by
    simp only [check, Expr.check_redirect]
    rfl
  | hole h => rfl

theorem checkAll_redirect (c : Context) :
    (ss : List Stmt) → checkAll (c.redirect stream log) ss = checkAll c ss
  | [] => rfl
  | s :: ss => by
    simp only [checkAll, check_redirect c s, Context.extend_redirect]
    simp only [checkAll_redirect]

end

end Stmt

/-! ### Sources -/

/-- What two checks leave behind is the same, but for the streams and the logs. -/
inductive Checked.SameState {α : Type} : Checked α → Checked α → Prop
  | same {tree : α} {verdict : Except Fault Unit} {σ τ : Store} (h : σ.SameState τ) :
      SameState ⟨tree, verdict, σ⟩ ⟨tree, verdict, τ⟩

theorem Checked.SameState.map {α β : Type} {a b : Checked α} (h : a.SameState b) (f : α → β) :
    (a.map f).SameState (b.map f) := by
  cases h with
  | same h => exact .same h

/-- The check comes to the same in stores that are the same to it. -/
def ChecksSame {α : Type} (check : Store → Checked α) : Prop :=
  ∀ ⦃σ τ⦄, σ.SameState τ → (check σ).SameState (check τ)

theorem checksSame_checkInOrder {α : Type} {check : α → Store → Checked α}
    (h : ∀ a, ChecksSame (check a)) : ∀ as, ChecksSame (checkInOrder check as)
  | [] => fun _ _ hστ => .same hστ
  | a :: as => fun σ τ hστ => by
    have hfirst := h a hστ
    simp only [checkInOrder]
    generalize check a σ = x at hfirst
    generalize check a τ = y at hfirst
    cases hfirst with
    | @same _ verdict _ _ hstore =>
      cases verdict with
      | error f => exact .same hstore
      | ok _ => exact (checksSame_checkInOrder h as hstore).map (_ :: ·)

namespace Pass

variable (pass : Pass)

theorem checksSame_checkField (f : Field) : ChecksSame (pass.checkField f) := by
  rintro σ _ ⟨stream, log, rfl⟩
  have hvalue := checkDeclared_redirect stream log (pass.context σ) f.name f.typeName f.value
  change checkDeclared (pass.context (σ.redirect stream log)) f.name f.typeName f.value = _
    at hvalue
  have hdeclare : (pass.context (σ.redirect stream log)).declare f.name
    = (pass.context σ).declare f.name := rfl
  simp only [checkField, hvalue, hdeclare]
  split
  · exact .same ⟨stream, log, rfl⟩
  · exact .same ⟨stream, log, rfl⟩

theorem checksSame_checkFieldPlace (p : FieldPlace) : ChecksSame (pass.checkFieldPlace p) := by
  intro σ τ h
  cases p with
  | field f => exact (pass.checksSame_checkField f h).map _
  | declaration f => exact (pass.checksSame_checkField f h).map _
  | hole _ => exact .same h

theorem types_redirect (c : Context) :
    (names : List Name) → (c.redirect stream log).types names = c.types names
  | [] => rfl
  | n :: ns => by
    simp only [Context.types, types_redirect c ns]
    rfl

theorem signature_redirect (m : Method) (c : Context) :
    m.signature (c.redirect stream log) = m.signature c := by
  simp only [Method.signature, types_redirect]
  rfl

theorem declareFunction_redirect (σ : Store) (id : TableId) (name : Name)
    (types : List (Option Ty)) (result : Option Ty) :
    (σ.redirect stream log).declareFunction id name types result none none
      = (σ.declareFunction id name types result none none).map
          fun (f, τ) => (f, τ.redirect stream log) := by
  have htable : (σ.redirect stream log).table id = σ.table id := rfl
  simp only [Store.declareFunction, htable]
  split <;> rfl

theorem checkBody_redirect (m : Method) (c : Context) (types : List Ty) (result : Ty) :
    m.checkBody (c.redirect stream log) types result = m.checkBody c types result := by
  unfold Method.checkBody
  cases parameterBlock (m.parameters.zip types) [] with
  | error f => rfl
  | ok block =>
    exact Stmt.checkAll_redirect stream log { c with blocks := [block], returns? := result } m.body

theorem checksSame_checkMethod (m : Method) : ChecksSame (pass.checkMethod m) := by
  rintro σ _ ⟨stream, log, rfl⟩
  have hsignature := signature_redirect stream log m (pass.context σ)
  change m.signature (pass.context (σ.redirect stream log)) = _ at hsignature
  simp only [checkMethod, hsignature, declareFunction_redirect]
  cases m.signature (pass.context σ) with
  | error f => exact .same ⟨stream, log, rfl⟩
  | ok signature =>
    obtain ⟨types, result⟩ := signature
    simp only
    cases σ.declareFunction pass.scope.top m.name (types.map some) (some result) none none with
    | error f => exact .same ⟨stream, log, rfl⟩
    | ok declared =>
      obtain ⟨f, τ⟩ := declared
      -- Both have the record of this method by then, each in its own log.
      have hbody := checkBody_redirect stream (log.push (.checkedMethod m.name types.length)) m
        (pass.context (τ.report (.checkedMethod m.name types.length))) types result
      change m.checkBody (pass.context ((τ.redirect stream log).report _)) types result = _ at hbody
      simp only [Except.map, hbody]
      exact .same ⟨stream, _, rfl⟩

theorem checksSame_checkMethodPlace (p : MethodPlace) : ChecksSame (pass.checkMethodPlace p) := by
  intro σ τ h
  cases p with
  | method m => exact (pass.checksSame_checkMethod m h).map _
  | untyped m => exact .same h
  | hole _ => exact .same h

theorem checksSame_check (s : Source) : ChecksSame (pass.check s) := by
  intro σ τ h
  unfold check
  split
  · exact .same h
  · have hfields := checksSame_checkInOrder pass.checksSame_checkFieldPlace s.fields h
    generalize checkInOrder pass.checkFieldPlace s.fields σ = x at hfields
    generalize checkInOrder pass.checkFieldPlace s.fields τ = y at hfields
    cases hfields with
    | @same _ verdict _ _ hstore =>
      cases verdict with
      | error f => exact .same hstore
      | ok _ =>
        have hmethods := checksSame_checkInOrder pass.checksSame_checkMethodPlace s.methods hstore
        simp only
        generalize checkInOrder pass.checkMethodPlace s.methods _ = x at hmethods
        generalize checkInOrder pass.checkMethodPlace s.methods _ = y at hmethods
        cases hmethods with
        | @same _ verdict _ _ hstore =>
          cases verdict with
          | error f => exact .same hstore
          | ok _ =>
            obtain ⟨stream, log, rfl⟩ := hstore
            exact .same ⟨stream, _, rfl⟩

end Pass

/-! ### New passes -/

theorem newBuiltins_redirect (σ : Store) : (bs : List Builtin) →
    Store.newBuiltins bs (σ.redirect stream log)
      = ((Store.newBuiltins bs σ).1, (Store.newBuiltins bs σ).2.redirect stream log)
  | [] => rfl
  | b :: bs => by
    have hrest := newBuiltins_redirect σ.newTable.2 bs
    have htable : (σ.redirect stream log).newTable
      = (σ.newTable.1, σ.newTable.2.redirect stream log) := rfl
    simp only [Store.newBuiltins, htable, hrest]

theorem newPass_redirect (σ : Store) (parent : Option Scope) (registry : Option RegistryId)
    (print? : Option Implementation) :
    (σ.redirect stream log).newPass parent registry print?
      = ((σ.newPass parent registry print?).1,
          (σ.newPass parent registry print?).2.redirect stream log) := by
  have hregistry : (σ.redirect stream log).registryOr registry
      = ((σ.registryOr registry).1, (σ.registryOr registry).2.redirect stream log) := by
    cases registry with
    | some id => rfl
    | none =>
      simp only [Store.registryOr, Store.newRegistry, newBuiltins_redirect]
      rfl
  simp only [Store.newPass, hregistry]
  rfl

/-- **A check does not look at the stream or the log.** -/
theorem Source.analyze_sameState (s : Source) (host : Host) :
    ChecksSame fun σ => s.analyze host σ := by
  rintro σ _ ⟨stream, log, rfl⟩
  have hpass := newPass_redirect stream log σ host.parent host.registry none
  simp only [analyze, Host.checker, hpass]
  exact (σ.newPass host.parent host.registry none).1.checksSame_check s ⟨stream, log, rfl⟩

end Parlance
