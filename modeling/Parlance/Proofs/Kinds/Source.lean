/-
A checked source, field by field, method by method, and then its entry point.

The check and the evaluation go through the source in the same order, and each field adds a
variable to both tables, each method a function.  So the two are followed side by side: after
as many fields, or methods, the evaluator's store models the setting of what the check has
built up by then.  A field's value is evaluated in the setting of the fields before it, with
`print` for its only function; what the methods have to keep to is the setting at the end.
-/
import Parlance.Proofs.Kinds.Reached

namespace Parlance

/-! ### Variables of fields -/

/-- The field in that place is annotated with the variable of the slot. -/
def FieldPlace.Binds (p : FieldPlace) (s : Slot) : Prop :=
  ∃ f, p.field? = some f ∧ f.bound = some s.var

/-- At run time the field in that place has the slot: it bears the name of the variable that the
field is annotated with, and holds a value of its type. -/
def FieldPlace.Holds (lax : Bool) (p : FieldPlace) (s : Slot) : Prop :=
  ∃ f v, p.field? = some f ∧ f.bound = some v ∧ s.var.name = v.name ∧
    Parlance.Holds lax v.type s.value

/-- The variables of the table are those of the first few fields, with values of their types. -/
def FieldsHold (lax : Bool) (fields : List FieldPlace) (top : TableId) (σ : Store) : Prop :=
  ∃ declared, declared <+: fields ∧
    List.Forall₂ (FieldPlace.Holds lax) declared (σ.table top).slots

/-! ### Settings that grow -/

namespace Setting.Models

variable {w : Setting} {σ : Store} (h : w.Models σ)

include h

theorem addSlot {v r : Variable} {x : Value} {hd : (w.table.addSlot ⟨v, .nil⟩).Distinct}
    (hn : r.name = v.name) (hh : r.home = .table w.pass.scope.top) (hx : Holds w.lax v.type x) :
    (w.grow (w.table.addSlot ⟨v, .nil⟩) hd).Models
      (σ.modifyTable w.pass.scope.top fun t => t.addSlot ⟨r, x⟩) := by
  have ht := Store.table_modifyTable_self h.top fun t => t.addSlot ⟨r, x⟩
  refine ⟨(Store.hasTable_modifyTable σ).mpr h.top, ?_, ?_, h.encoding⟩
  · exact ht ▸ List.rel_append (h.slots.imp fun _ _ hk => ⟨hk.name, hk.home, hk.value⟩)
      (.cons ⟨hn, hh, hx⟩ .nil)
  · exact ht ▸ h.routines.imp fun _ _ hi => hi.grow (w.table.extends_addSlot _)

theorem addRoutine {s r : Routine} {hd : (w.table.addRoutine s).Distinct}
    (hi : (w.grow (w.table.addRoutine s) hd).Implements s r) :
    (w.grow (w.table.addRoutine s) hd).Models
      (σ.modifyTable w.pass.scope.top fun t => t.addRoutine r) := by
  have ht := Store.table_modifyTable_self h.top fun t => t.addRoutine r
  refine ⟨(Store.hasTable_modifyTable σ).mpr h.top, ?_, ?_, h.encoding⟩
  · exact ht ▸ h.slots.imp fun _ _ hk => ⟨hk.name, hk.home, hk.value⟩
  · exact ht ▸ List.rel_append (h.routines.imp fun _ _ hi => hi.grow (w.table.extends_addRoutine _))
      (.cons hi .nil)

end Setting.Models

/-- The setting of what the check has built up in a store. -/
def Pass.Alone.setting {checker : Pass} {σ : Store} (h : checker.Alone σ) (stream : Encoding)
    (lax : Bool)
    (evaluator : Pass) (he : evaluator.scope.outer = []) : Setting :=
  ⟨stream, lax, σ.table checker.scope.top, h.distinct, evaluator, he⟩

section Source

variable {checker evaluator : Pass} {stream : Encoding} {lax : Bool}
  {he : evaluator.scope.outer = []} {fuel : Nat}
variable {σ τ ρ : Store}

/-! ### Fields -/

theorem Eval.declare_outside {pass : Pass} {name : Name} {x : Value}
    (hfree : (σ.table pass.scope.top).slot? name = none) :
    ∃ v : Variable, v.name = name ∧ v.home = .table pass.scope.top ∧
      Eval.declare pass [] name x σ
        = .ok [] (σ.modifyTable pass.scope.top fun t => t.addSlot ⟨v, x⟩) := by
  refine ⟨⟨name, name, none, .table pass.scope.top⟩, rfl, rfl, ?_⟩
  have hd : σ.declareVariable pass.scope.top name none x none
      = .ok (⟨name, name, none, .table pass.scope.top⟩,
        σ.modifyTable pass.scope.top fun t =>
          t.addSlot ⟨⟨name, name, none, .table pass.scope.top⟩, x⟩) := by
    unfold Store.declareVariable
    rw [hfree]
    rfl
  simp only [Eval.declare]
  rw [Eval.bind_apply (Eval.read_ok hd)]
  rfl

/-- What is done with a place for a field is done with the field that stands there. -/
theorem FieldPlace.eq_of_field? {p : FieldPlace} {f : Field} (h : p.field? = some f) (pass : Pass)
    (fuel : Nat) : pass.declareFieldPlace fuel p = pass.declareField fuel f ∧
      (Node.field p).careful = f.value.isSome := by
  cases p with
  | field g =>
    cases h
    exact ⟨rfl, rfl⟩
  | declaration g =>
    cases h
    exact ⟨rfl, rfl⟩
  | hole g => cases h

theorem Pass.Alone.setting_eq (hσ : checker.Alone σ) (hτ : checker.Alone τ) {table : Table}
    (hd : table.Distinct) (ht : τ.table checker.scope.top = table) :
    hτ.setting stream lax evaluator he = (hσ.setting stream lax evaluator he).grow table hd := by
  subst ht
  rfl

/-- The check's place outside of all blocks is covered by what it has built up. -/
theorem Pass.Alone.at (hσ : checker.Alone σ) (hm : (hσ.setting stream lax evaluator he).Models ρ) :
    (hσ.setting stream lax evaluator he).At (checker.context σ) [] ρ :=
  ⟨⟨hσ.context, .refl _⟩, .nil, hm⟩

/-- The value that a field in order begins with. -/
theorem Declared.initial_safe {f : Field} {t : Option Ty} (hσ : checker.Alone σ)
    (hm : (hσ.setting stream lax evaluator he).Models ρ)
    (hd : Declared (checker.context σ) f.typeName f.value t)
    (hcare : Careful lax (walkOption f.value)) (hset : lax = true ∨ f.value.isSome = true) :
    (hσ.setting stream lax evaluator he).Safe (evaluator.initialValue fuel f.value) ρ
      (Holds lax t) := by
  have sound := (hσ.setting stream lax evaluator he).soundAt fuel
  obtain ⟨name, typeName, value, bound⟩ := f
  cases hd with
  | unset _ =>
    refine Eval.safe_pure hm ?_
    rcases hset with hlax | hsome
    · rw [hlax]
      exact .nil
    · cases hsome
  | inferred h => exact sound.eval (hσ.at hm) h hcare
  | given _ h ht => exact (sound.eval (hσ.at hm) h hcare).mono fun x hx => hx.moved ht

/-- Evaluating a field that is in order, and declaring it. -/
theorem Pass.AddsField.ends {p : FieldPlace} {v : Variable} (h : checker.AddsField σ p v τ)
    (hσ : checker.Alone σ) (fuel : Nat) (hm : (hσ.setting stream lax evaluator he).Models ρ)
    (hcare : Careful lax p.walk) :
    Eval.Ends (hσ.setting stream lax evaluator he).Models (Expected stream lax)
      (evaluator.declareFieldPlace fuel p) ρ
      fun _ ρ' => ((h.alone hσ).setting stream lax evaluator he).Models ρ' := by
  obtain ⟨f, hp, hb, hname, hd⟩ := h.bound
  obtain ⟨hplace, hnode⟩ := FieldPlace.eq_of_field? hp evaluator fuel
  rw [FieldPlace.walk_of_field? hp] at hcare
  rw [hplace]
  refine Eval.ends_bind (hd.initial_safe hσ hm hcare.tail (hnode ▸ hcare.head)) ?_
  intro x ρ' _ hx
  obtain ⟨hm', hx⟩ := hx
  have hfree : (ρ'.table evaluator.scope.top).slot? f.name = none :=
    hm'.slot?_none (hname ▸ h.free)
  obtain ⟨r, hr, hhome, hdecl⟩ := Eval.declare_outside (x := x) hfree
  refine Eval.ends_bind_of_ok hdecl ?_
  have htable : τ.table checker.scope.top = (σ.table checker.scope.top).addSlot ⟨v, .nil⟩ := by
    rw [h.store]
    exact Store.table_modifyTable_self hσ.top _
  rw [hσ.setting_eq (h.alone hσ) (htable ▸ (h.alone hσ).distinct) htable]
  exact hm'.addSlot (hr.trans hname) hhome hx

/-- A store that models the setting after the first few fields has just their variables. -/
theorem Setting.Models.fieldsHold {hσ : checker.Alone σ} {all done more : List FieldPlace}
    (hm : (hσ.setting stream lax evaluator he).Models ρ) (hall : done ++ more = all)
    (hdone : List.Forall₂ FieldPlace.Binds done (σ.table checker.scope.top).slots) :
    FieldsHold lax all evaluator.scope.top ρ := by
  refine ⟨done, ⟨more, hall⟩, forall₂_comp ?_ hdone hm.slots⟩
  rintro p s r ⟨f, hf, hb⟩ hk
  exact ⟨f, s.var, hf, hb, hk.name, hk.value⟩

theorem Pass.AddsField.binds {p : FieldPlace} {v : Variable} {done : List FieldPlace}
    (h : checker.AddsField σ p v τ) (hσ : checker.Alone σ)
    (hdone : List.Forall₂ FieldPlace.Binds done (σ.table checker.scope.top).slots) :
    List.Forall₂ FieldPlace.Binds (done ++ [p]) (τ.table checker.scope.top).slots := by
  obtain ⟨f, hp, hb, -, -⟩ := h.bound
  have htable : τ.table checker.scope.top = (σ.table checker.scope.top).addSlot ⟨v, .nil⟩ := by
    rw [h.store]
    exact Store.table_modifyTable_self hσ.top _
  rw [htable]
  exact List.rel_append hdone (.cons ⟨f, hp, hb⟩ .nil)

/-- Evaluating and declaring fields that are in order, one after the other. The evaluation stops
only with the variables of the first few fields declared. -/
theorem InOrder.fields_ends {fields fields' all done : List FieldPlace}
    (h : InOrder checker.FieldTyped σ fields fields' τ) (hσ : checker.Alone σ)
    (hm : (hσ.setting stream lax evaluator he).Models ρ)
    (hcare : Careful lax (fields'.flatMap FieldPlace.walk)) (hall : done ++ fields' = all)
    (hdone : List.Forall₂ FieldPlace.Binds done (σ.table checker.scope.top).slots) :
    Eval.Ends (FieldsHold lax all evaluator.scope.top) (Expected stream lax)
      (fields'.forM (evaluator.declareFieldPlace fuel)) ρ
      fun _ ρ' => ∃ hτ : checker.Alone τ, (hτ.setting stream lax evaluator he).Models ρ' ∧
        List.Forall₂ FieldPlace.Binds all (τ.table checker.scope.top).slots := by
  induction h generalizing ρ done with
  | nil =>
    rw [List.append_nil] at hall
    exact ⟨hσ, hm, hall ▸ hdone⟩
  | @cons σ τ υ p p' ps ps' hp hps ih =>
    obtain ⟨v, ha⟩ := hp.adds
    rw [List.flatMap_cons] at hcare
    show Eval.Ends _ _ (evaluator.declareFieldPlace fuel p' >>= fun _ => ps'.forM _) ρ _
    have hone := ha.ends hσ fuel hm hcare.left
    refine Eval.ends_bind (hone.mono (fun _ hm' => hm'.fieldsHold hall hdone) fun _ _ h => h)
      fun _ ρ' _ hm' => ?_
    refine ih (ha.alone hσ) hm' hcare.right ?_ (ha.binds hσ hdone)
    rw [List.append_assoc, ← hall]
    rfl

/-! ### Methods -/

theorem Pass.declareMethod_ok {pass : Pass} {m : Method}
    (hfree : (σ.table pass.scope.top).routine? m.name m.parameters.length = none) :
    ∃ (f : Function) (record : LogRecord), f.name = m.name ∧ f.arity = m.parameters.length ∧
      f.home = pass.scope.top ∧
      pass.declareMethodPlace (.method m) σ
        = .ok () ((σ.modifyTable pass.scope.top fun t =>
          t.addRoutine ⟨f, some (.method m pass)⟩).report record) := by
  let f : Function :=
    ⟨m.name, m.name, .replicate m.parameters.length (some Builtin.any.type),
      some Builtin.any.type, pass.scope.top⟩
  have hf : σ.declareFunction pass.scope.top m.name
      (.replicate m.parameters.length (some Builtin.any.type)) (some Builtin.any.type)
      (some (.method m pass)) none
      = .ok (f, σ.modifyTable pass.scope.top fun t =>
          t.addRoutine ⟨f, some (.method m pass)⟩) := by
    unfold Store.declareFunction
    rw [List.length_replicate, hfree]
    rfl
  refine ⟨f, .declaredMethod m.name m.parameters.length, rfl, ?_, rfl, ?_⟩
  · simp [f, Function.arity]
  · simp only [declareMethodPlace, declareMethod]
    rw [Eval.bind_apply (Eval.read_ok hf)]
    rfl

/-- A method that may end silently promises a type that `Nil` is of. -/
theorem Method.nil_of_mayEndSilently {m : Method} {c : Context} {result : Ty}
    (h : m.mayEndSilently = true) (hr : c.resultType m.returnTypeName = .ok result) :
    Parlance.Holds lax (some result) .nil := by
  have cases_name : m.returnTypeName = none ∨ m.returnTypeName = some Builtin.nil.name ∨
      m.returnTypeName = some Builtin.any.name := by
    simpa [mayEndSilently, or_assoc] using h
  rcases cases_name with hn | hn | hn
  · rw [hn] at hr
    cases hr
    exact .of_builtin rfl rfl
  · rw [hn] at hr
    exact .of_builtin rfl (Context.name_of_type hr)
  · rw [hn] at hr
    have hany : result.name = Builtin.any.name := Context.name_of_type hr
    exact ⟨result, _, rfl, rfl, .inl (Ty.accepts_iff.mpr (.inr (.inl hany)))⟩

/-- The method is typed in the setting of the table in which it has been declared. -/
theorem Pass.AddsMethod.typed {m : Method} {f : Function} (h : checker.AddsMethod σ m f τ)
    (hσ : checker.Alone σ) (stream : Encoding) (he : evaluator.scope.outer = [])
    (hcare : Careful lax (MethodPlace.method m).walk) :
    ((h.alone hσ).setting stream lax evaluator he).Typed m f := by
  obtain ⟨types, result, block, hl, hp, hr, hts, hres, hblock, hs⟩ := h.body
  rw [MethodPlace.walk] at hcare
  have hplain : ∀ b ∈ [block], ∀ v ∈ b, Ty.Plain v.type := by
    intro b hb v hv
    rw [List.mem_singleton.mp hb] at hv
    obtain ⟨t, ht, hvt⟩ := mem_of_parameterBlock hl hblock hv
    exact hvt ▸ hσ.context.types_plain hts t ht
  have hcov : ((h.alone hσ).setting stream lax evaluator he).Covers
      (checker.bodyContext τ block result) :=
    ⟨⟨h.alone hσ, hplain⟩, .refl _⟩
  refine .intro h.bound hcov hl hp hr hblock rfl rfl hs hcare.tail ?_
  rcases hcare.head with hlax | hhead
  · left
    show Parlance.Holds lax (some result) .nil
    rw [hlax]
    exact .nil
  · rcases Bool.or_eq_true _ _ ▸ (show (m.mayEndSilently || definitelyReturn m.body) = true from
      hhead) with hend | hend
    · exact .inl (m.nil_of_mayEndSilently hend hres)
    · exact .inr hend

/-- Declaring a method that is in order. -/
theorem Pass.AddsMethod.declared {m : Method} {f : Function} (h : checker.AddsMethod σ m f τ)
    (hσ : checker.Alone σ) (hm : (hσ.setting stream lax evaluator he).Models ρ)
    (hcare : Careful lax (MethodPlace.method m).walk) :
    ∃ ρ', evaluator.declareMethodPlace (.method m) ρ = .ok () ρ' ∧
      ((h.alone hσ).setting stream lax evaluator he).Models ρ' := by
  have hfree : (ρ.table evaluator.scope.top).routine? m.name m.parameters.length = none := by
    rw [← h.name, ← h.arity]
    exact hm.routine?_none h.free
  obtain ⟨g, record, hname, harity, -, hdecl⟩ := Pass.declareMethod_ok hfree
  refine ⟨_, hdecl, .report ?_ record⟩
  obtain ⟨record', hstore⟩ := h.store
  have htable : τ.table checker.scope.top = (σ.table checker.scope.top).addRoutine ⟨f, none⟩ := by
    rw [hstore]
    exact Store.table_modifyTable_self hσ.top _
  have htyped := h.typed hσ stream he hcare
  rw [hσ.setting_eq (h.alone hσ) (htable ▸ (h.alone hσ).distinct) htable] at htyped ⊢
  exact hm.addRoutine (.method (hname.trans h.name.symm) (harity.trans h.arity.symm) htyped)

/-- Declaring methods that are in order, one after the other. -/
theorem InOrder.methods_declared {methods methods' : List MethodPlace}
    (h : InOrder checker.MethodTyped σ methods methods' τ) (hσ : checker.Alone σ)
    (hm : (hσ.setting stream lax evaluator he).Models ρ)
    (hcare : Careful lax (methods'.flatMap MethodPlace.walk)) :
    ∃ ρ', methods'.forM evaluator.declareMethodPlace ρ = .ok () ρ' ∧
      ∃ hτ : checker.Alone τ, (hτ.setting stream lax evaluator he).Models ρ' := by
  induction h generalizing ρ with
  | nil => exact ⟨ρ, rfl, hσ, hm⟩
  | @cons σ τ υ p p' ps ps' hp hps ih =>
    obtain ⟨m, f, rfl, ha⟩ := hp.adds
    rw [List.flatMap_cons] at hcare
    obtain ⟨ρ', hdecl, hm'⟩ := ha.declared hσ hm hcare.left
    obtain ⟨ρ'', hrest, hυ⟩ := ih (ha.alone hσ) hm' hcare.right
    refine ⟨ρ'', ?_, hυ⟩
    show (evaluator.declareMethodPlace (.method m) >>= fun _ => ps'.forM _) ρ = _
    rw [Eval.bind_apply hdecl]
    exact hrest

end Source

end Parlance
