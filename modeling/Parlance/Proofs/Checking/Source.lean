/-
What a source that passes the check consists of.

The check goes through the fields and then through the methods, and each of them is typed in
the store that those before it have left.  `InOrder` keeps that chain of stores, so that
a fact about one field or method comes with what was declared before it and what comes
after it.

From the chain one reads off the scope's own table at the end: it extends every earlier
state of it, each of its bindings is the one its key finds, and the entry point is among
them.
-/
import Parlance.Proofs.Checking.Sound

namespace Parlance

/-! ### One tree after the other -/

/-- Each tree of the second list has come from the one in its place in the first, as `R` says,
between the store that those before it have left and the one it leaves. -/
inductive InOrder {α : Type} (R : Store → α → α → Store → Prop) :
    Store → List α → List α → Store → Prop
  | nil {σ : Store} : InOrder R σ [] [] σ
  | cons {σ τ υ : Store} {a a' : α} {as as' : List α} (h : R σ a a' τ)
      (hs : InOrder R τ as as' υ) : InOrder R σ (a :: as) (a' :: as') υ

namespace InOrder

variable {α : Type} {R : Store → α → α → Store → Prop} {σ τ υ : Store} {as as' : List α}

/-- What every tree preserves is preserved by all. -/
theorem preserves {P : Store → Prop} (hR : ∀ {σ a a' τ}, R σ a a' τ → P σ → P τ)
    (h : InOrder R σ as as' υ) (hσ : P σ) : P υ := by
  induction h with
  | nil => exact hσ
  | cons h _ ih => exact ih (hR h hσ)

/-- A tree of the second list stands somewhere in the chain. -/
theorem split (h : InOrder R σ as as' υ) {before after : List α} {a' : α}
    (he : as' = before ++ a' :: after) :
    ∃ τ₁ τ₂ as₁ a as₂, InOrder R σ as₁ before τ₁ ∧ R τ₁ a a' τ₂ ∧ InOrder R τ₂ as₂ after υ := by
  induction h generalizing before with
  | nil => simp at he
  | @cons σ τ υ b b' bs bs' hb hbs ih =>
    cases before with
    | nil =>
      obtain ⟨rfl, rfl⟩ := List.cons.inj he
      exact ⟨_, _, [], b, bs, .nil, hb, hbs⟩
    | cons c before =>
      obtain ⟨rfl, hrest⟩ := List.cons.inj he
      obtain ⟨τ₁, τ₂, as₁, a, as₂, h₁, ha, h₂⟩ := ih hrest
      exact ⟨τ₁, τ₂, b :: as₁, a, as₂, .cons hb h₁, ha, h₂⟩

/-- So does a tree of the first list. -/
theorem exists_of_mem (h : InOrder R σ as as' υ) {a : α} (ha : a ∈ as) :
    ∃ before a' after, as' = before ++ a' :: after ∧
      ∃ τ₁ τ₂ as₁ as₂, InOrder R σ as₁ before τ₁ ∧ R τ₁ a a' τ₂ ∧ InOrder R τ₂ as₂ after υ := by
  induction h with
  | nil => simp at ha
  | @cons σ τ υ b b' bs bs' hb hbs ih =>
    rcases List.mem_cons.mp ha with rfl | ha
    · exact ⟨[], b', bs', rfl, _, _, [], bs, .nil, hb, hbs⟩
    · obtain ⟨before, a', after, rfl, τ₁, τ₂, as₁, as₂, h₁, hR, h₂⟩ := ih ha
      exact ⟨b' :: before, a', after, rfl, τ₁, τ₂, b :: as₁, as₂, .cons hb h₁, hR, h₂⟩

end InOrder

theorem checkInOrder_ok {α : Type} {check : α → Store → Checked α}
    {R : Store → α → α → Store → Prop}
    (hR : ∀ a σ, (check a σ).verdict = .ok () → R σ a (check a σ).tree (check a σ).store)
    (as : List α) (σ : Store) (h : (checkInOrder check as σ).verdict = .ok ()) :
    InOrder R σ as (checkInOrder check as σ).tree (checkInOrder check as σ).store := by
  induction as generalizing σ with
  | nil => exact .nil
  | cons a as ih =>
    have ha := hR a σ
    simp only [checkInOrder] at h ⊢
    rcases hc : check a σ with ⟨a', verdict, τ⟩
    rw [hc] at ha h
    cases verdict with
    | error f => simp at h
    | ok u => exact .cons (ha rfl) (ih τ h)

/-! ### Fields -/

/-- A field is in order in the store, is annotated with the variable it makes, and leaves the
store in which that is declared. -/
inductive Pass.FieldTyped (pass : Pass) (σ : Store) : FieldPlace → FieldPlace → Store → Prop
  | intro {p p' : FieldPlace} {f : Field} {value : Option Expr} {t : Option Ty} {v : Variable}
      (hp : p.field? = some f) (hp' : p'.field? = some { f with value, bound := some v })
      (h : Declared (pass.context σ) f.typeName value t)
      (hv : (pass.context σ).declare f.name t = .ok v) :
      FieldTyped pass σ p p' (pass.addVariable v σ)

private theorem Pass.checkField_ok {pass : Pass} {f : Field} {σ : Store}
    (h : (pass.checkField f σ).verdict = .ok ()) :
    ∃ value t v, pass.checkField f σ
        = ⟨{ f with value, bound := some v }, .ok (), pass.addVariable v σ⟩
      ∧ Declared (pass.context σ) f.typeName value t
      ∧ (pass.context σ).declare f.name t = .ok v := by
  simp only [checkField] at h ⊢
  split at h
  · next v hv =>
    obtain ⟨t, ht, hd⟩ := Except.bind_ok.mp hv
    exact ⟨_, t, v, rfl, checkDeclared_typed (Prod.ext rfl ht), hd⟩
  · cases h

theorem Pass.checkFieldPlace_typed (pass : Pass) (p : FieldPlace) (σ : Store)
    (h : (pass.checkFieldPlace p σ).verdict = .ok ()) :
    pass.FieldTyped σ p (pass.checkFieldPlace p σ).tree (pass.checkFieldPlace p σ).store := by
  cases p with
  | field f =>
    obtain ⟨value, t, v, he, ht, hv⟩ := checkField_ok h
    simp only [checkFieldPlace, Checked.map, he]
    exact .intro rfl rfl ht hv
  | declaration f =>
    obtain ⟨value, t, v, he, ht, hv⟩ := checkField_ok h
    simp only [checkFieldPlace, Checked.map, he]
    exact .intro rfl rfl ht hv
  | hole g => simp [checkFieldPlace] at h

/-- The variable that a declaration makes has the type it is declared with. -/
theorem Context.type_of_declare {c : Context} {name : Name} {t : Option Ty} {v : Variable}
    (h : c.declare name t = .ok v) : v.type = t := by
  unfold declare at h
  split at h <;> split at h <;> cases h <;> rfl

theorem Context.name_of_declare {c : Context} {name : Name} {t : Option Ty} {v : Variable}
    (h : c.declare name t = .ok v) : v.name = name := by
  unfold declare at h
  split at h <;> split at h <;> cases h <;> rfl

theorem Context.home_of_declare {c : Context} {name : Name} {t : Option Ty} {v : Variable}
    (h : c.declare name t = .ok v) (hc : c.blocks = []) : v.home = .table c.pass.scope.top := by
  simp only [declare, hc] at h
  split at h <;> cases h
  rfl

/-- What a field that is in order adds: its variable, under a name that is free. -/
structure Pass.AddsField (pass : Pass) (σ : Store) (p : FieldPlace) (v : Variable) (τ : Store) :
    Prop where
  bound : ∃ f, p.field? = some f ∧ f.bound = some v ∧ f.name = v.name ∧
    Declared (pass.context σ) f.typeName f.value v.type
  free : (σ.table pass.scope.top).slot? v.name = none
  store : τ = pass.addVariable v σ

theorem Pass.FieldTyped.adds {pass : Pass} {σ τ : Store} {p p' : FieldPlace}
    (h : pass.FieldTyped σ p p' τ) : ∃ v, pass.AddsField σ p' v τ := by
  cases h with
  | @intro f value t v _ hp' hd hv =>
    have htype := Context.type_of_declare hv
    simp only [Context.declare, Pass.context] at hv
    split at hv
    · cases hv
    · next hfree =>
      cases hv
      exact ⟨_, ⟨_, hp', rfl, rfl, hd⟩, hfree, rfl⟩

/-! ### Methods -/

theorem Context.length_types {c : Context} {names : List Name} {types : List Ty}
    (h : c.types names = .ok types) : types.length = names.length := by
  induction names generalizing types with
  | nil =>
    cases h
    rfl
  | cons n ns ih =>
    simp only [Context.types] at h
    split at h
    · cases h
    · obtain ⟨ts, hts, rfl⟩ := Except.map_ok.mp h
      simp [ih hts]

theorem parameterBlock_ok {names : List Name} {types : List Ty} {block block' : List Variable}
    (hl : names.length = types.length)
    (h : parameterBlock (names.zip types) block = .ok block') :
    block' = block ++ List.zipWith (fun n t => ⟨n, n, t, .block 0⟩) names (types.map some) := by
  induction names generalizing types block with
  | nil =>
    cases h
    simp
  | cons name names ih =>
    cases types with
    | nil => simp at hl
    | cons t types =>
      rw [List.zip_cons_cons, parameterBlock] at h
      split at h
      · cases h
      · rw [ih (by simpa using hl) h]
        simp

/-- Each parameter has one of the types. -/
theorem mem_of_parameterBlock {names : List Name} {types : List Ty} {block : List Variable}
    (hl : names.length = types.length) (h : parameterBlock (names.zip types) [] = .ok block)
    {v : Variable} (hv : v ∈ block) : ∃ t ∈ types, v.type = some t := by
  rw [parameterBlock_ok hl h, List.nil_append] at hv
  obtain ⟨i, hi⟩ := List.mem_iff_getElem?.mp hv
  obtain ⟨n, t, -, ht, rfl⟩ := List.getElem?_zipWith_eq_some.mp hi
  obtain ⟨u, hu, rfl⟩ := List.mem_map.mp (List.mem_of_getElem? ht)
  exact ⟨u, hu, rfl⟩

/-- The type of a name bears that name. -/
theorem Context.name_of_type {c : Context} {name : Text} {t : Ty} (h : c.type name = .ok t) :
    t.name = name := by
  simpa using List.find?_some (Context.type_ok.mp h)

/-- The place of a method's body: the parameters' block, and a result to return. -/
def Pass.bodyContext (pass : Pass) (σ : Store) (block : List Variable) (result : Ty) : Context :=
  { pass.context σ with blocks := [block], returns? := some result }

/-- A method is declared in the store, is annotated with its function, and its body is in order
in the store in which it is declared. -/
inductive Pass.MethodTyped (pass : Pass) (σ : Store) : MethodPlace → MethodPlace → Store → Prop
  | intro {m : Method} {types : List Ty} {result : Ty} {f : Function} {τ : Store}
      {block : List Variable} {body : List Stmt}
      (hl : m.parameters.length = types.length)
      (hts : (pass.context σ).types m.parameterTypeNames = .ok types)
      (hr : (pass.context σ).resultType m.returnTypeName = .ok result)
      (hd : σ.declareFunction pass.scope.top m.name (types.map some) (some result) none none
        = .ok (f, τ))
      (hb : parameterBlock (m.parameters.zip types) [] = .ok block)
      (hs : Stmt.AllTyped
        (pass.bodyContext (τ.report (.checkedMethod m.name types.length)) block result) body) :
      MethodTyped pass σ (.method m) (.method { m with body, bound := some f })
        (τ.report (.checkedMethod m.name types.length))

theorem Method.signature_ok {m : Method} {c : Context} {types : List Ty} {result : Ty}
    (h : m.signature c = .ok (types, result)) :
    m.parameters.length = types.length ∧ c.types m.parameterTypeNames = .ok types
      ∧ c.resultType m.returnTypeName = .ok result := by
  unfold signature at h
  split at h
  · cases h
  · next hl =>
    split at h
    · cases h
    · next ts hts =>
      obtain ⟨r, hr, he⟩ := Except.map_ok.mp h
      cases he
      exact ⟨by rw [Context.length_types hts]; exact not_not.mp hl, hts, hr⟩

private theorem Method.checkBody_ok {m : Method} {pass : Pass} {σ : Store} {types : List Ty}
    {result : Ty} {body : List Stmt}
    (h : m.checkBody (pass.context σ) types result = (body, .ok ())) :
    ∃ block, parameterBlock (m.parameters.zip types) [] = .ok block
      ∧ Stmt.AllTyped (pass.bodyContext σ block result) body := by
  unfold checkBody at h
  split at h
  · cases h
  · next block hb => exact ⟨block, hb, Stmt.checkAll_typed h⟩

theorem Pass.checkMethodPlace_typed (pass : Pass) (p : MethodPlace) (σ : Store)
    (h : (pass.checkMethodPlace p σ).verdict = .ok ()) :
    pass.MethodTyped σ p (pass.checkMethodPlace p σ).tree (pass.checkMethodPlace p σ).store := by
  cases p with
  | method m =>
    simp only [checkMethodPlace, Checked.map, checkMethod] at h ⊢
    split at h
    · cases h
    · next types result hsig =>
      obtain ⟨hl, hts, hr⟩ := Method.signature_ok hsig
      split at h
      · cases h
      · next f τ hd =>
        obtain ⟨block, hb, hs⟩ := Method.checkBody_ok (Prod.ext rfl h)
        exact .intro hl hts hr hd hb hs
  | untyped m => simp [checkMethodPlace] at h
  | hole g => simp [checkMethodPlace] at h

/-- What a method that is in order adds: its function, under a name and a number of parameters
that are free. -/
structure Pass.AddsMethod (pass : Pass) (σ : Store) (m : Method) (f : Function) (τ : Store) :
    Prop where
  bound : m.bound = some f
  name : f.name = m.name
  arity : f.arity = m.parameters.length
  home : f.home = pass.scope.top
  free : (σ.table pass.scope.top).routine? f.name f.arity = none
  store : ∃ record, τ = (σ.modifyTable pass.scope.top fun t => t.addRoutine ⟨f, none⟩).report record
  body : ∃ types result block, m.parameters.length = types.length ∧
    f.parameterTypes = types.map some ∧ f.returnType = some result ∧
    (pass.context σ).types m.parameterTypeNames = .ok types ∧
    (pass.context σ).resultType m.returnTypeName = .ok result ∧
    parameterBlock (m.parameters.zip types) [] = .ok block ∧
    Stmt.AllTyped (pass.bodyContext τ block result) m.body

theorem Pass.MethodTyped.adds {pass : Pass} {σ τ : Store} {p p' : MethodPlace}
    (h : pass.MethodTyped σ p p' τ) : ∃ m f, p' = .method m ∧ pass.AddsMethod σ m f τ := by
  cases h with
  | @intro m types result f υ block body hl hts hr hd hb hs =>
    unfold Store.declareFunction at hd
    split at hd
    · cases hd
    · next hfree =>
      cases hd
      refine ⟨_, _, rfl, rfl, rfl, ?_, rfl, hfree, ⟨_, rfl⟩, ?_⟩
      · simp [Function.arity, hl]
      · exact ⟨types, result, block, hl, rfl, rfl, hts, hr, hb, hs⟩

/-! ### The whole source -/

/-- Some method of the source is an entry point that promises an Integer. -/
theorem Source.checkEntryPoint_ok {s : Source} (h : s.checkEntryPoint = .ok ()) :
    ∃ p ∈ s.methods, ∃ m, p.entryPoint? = .ok (some m)
      ∧ m.returnTypeName = some Builtin.integer.name := by
  unfold checkEntryPoint at h
  obtain ⟨ms, hms, h⟩ := bind_ok.mp h
  obtain ⟨found, hfound, he⟩ := bind_ok.mp hms
  cases he
  split at h
  · cases h
  · next m hm =>
    obtain ⟨m', hm', rfl⟩ := List.mem_filterMap.mp (List.mem_of_getLast? hm)
    obtain ⟨p, hp, he⟩ := mapM_ok hfound _ hm'
    refine ⟨p, hp, m, he, ?_⟩
    by_cases hr : m.returnTypeName = some Builtin.integer.name
    · exact hr
    · rw [if_neg hr] at h
      cases h

/-- What the check of a source has established when it passes: the source, the tree that is
left behind, and the stores before it, after the fields and after the methods. -/
structure Pass.SourceTyped (pass : Pass) (s tree : Source) (σ τ υ : Store) : Prop where
  entryPoint : s.checkEntryPoint = .ok ()
  fields : InOrder pass.FieldTyped σ s.fields tree.fields τ
  methods : InOrder pass.MethodTyped τ s.methods tree.methods υ

/-- **A source that passes the check is typed, field by field and method by method.** -/
theorem Pass.check_typed {pass : Pass} {s : Source} {σ : Store}
    (h : (pass.check s σ).verdict = .ok ()) :
    ∃ τ υ record, pass.SourceTyped s (pass.check s σ).tree σ τ υ ∧
      (pass.check s σ).store = υ.report record := by
  have hf := checkInOrder_ok pass.checkFieldPlace_typed s.fields σ
  unfold check at h ⊢
  split at h
  · cases h
  · next u he =>
    split at h
    · cases h
    · next fields τ hfields =>
      have hm := checkInOrder_ok pass.checkMethodPlace_typed s.methods τ
      rw [hfields] at hf
      split at h
      · cases h
      · next methods υ hmethods =>
        rw [hmethods] at hm
        exact ⟨τ, υ, _, ⟨he, hf rfl, hm rfl⟩, rfl⟩

end Parlance
