/-
What the annotations of an accepted tree certify.

Whoever reads an annotated tree, an emitter of code for one, trusts the annotations and does not
look at scopes again.  `Certified` says what there is to be trusted at each node, in terms of the
annotations of the node and of its children alone: no place, no scope, and of the store only the
registry that the names of types are resolved in.

The check establishes more than that, but about places.  Each node of the tree is in order in
some place of its method (`Stmt.AllTyped.near`), and a node that is in order in any place at all
is certified, so no induction is left.

The type of a call is what the function promises.  To declare a function takes a type for its
result, and only where a host has passed none all the same does an expression come to have no type.
-/
import Parlance.Program
import Parlance.Proofs.Calls.Resolution
import Parlance.Proofs.Checking.Parts
import Parlance.Proofs.Kinds.Holds

namespace Parlance

open Store (AddsFunctions)

/-! ### Certified nodes -/

/-- The type of the value, where it is known, may stand in the variable. -/
def Variable.Admits (v : Variable) (value : Option Expr) : Prop :=
  ∀ e t, value = some e → e.type? = some t → ∃ d, v.type = some d ∧ d.accepts t = true

/-- The annotations of an expression fit the expression and the annotations of its children. -/
def Expr.Certified : Expr → Prop
  | .literal v t =>
    ∃ b, v.builtin? = some b ∧ t = some b.type ∧ ∀ n, v = .integer n → integerLiteralRange n
  | .group e t => e.isBinary = true ∧ t = e.type?
  | .binary op l r t => ∃ s, binaryType op l.type? r.type? = .ok s ∧ t = some s
  | .access name bound t =>
    ∃ v s, bound = some v ∧ v.name = name ∧ v.type = some s ∧ t = some s
  | .member receiver name bound t =>
    receiver.isAccess = true ∧
      ∃ v s, bound = some v ∧ v.name = name ∧ v.type = some s ∧ t = some s
  | .call name arguments bound t =>
    ∃ f, bound = some f ∧ f.name = name ∧ f.arity = arguments.length ∧ t = f.returnType ∧
      List.Forall₂ Ty.Takes f.parameterTypes (arguments.map type?)
  | .memberCall receiver name arguments bound t =>
    receiver.isAccess = true ∧
      ∃ f, bound = some f ∧ f.name = name ∧ f.arity = arguments.length + 1 ∧ t = f.returnType ∧
        List.Forall₂ Ty.Takes (f.parameterTypes.drop 1) (arguments.map type?)
  | .hole _ => False

/-- The annotations of a statement fit it, but for the result of a `RETURN`, which the statement
does not tell. -/
def Stmt.Certified : Stmt → Prop
  | .expression e => e.isCall = true
  | .declaration name _ value bound => ∃ v, bound = some v ∧ v.name = name ∧ v.Admits value
  | .assignment target value => target.isAccess = true ∧ Ty.Takes target.type? value.type?
  | .conditional condition _ _ | .whileLoop condition _ =>
    ∃ t, condition.type? = some t ∧ t.is .boolean = true
  | .forEach _ value _ => ∃ t, value.type? = some t ∧ t.is .integerIterable = true
  | .returning _ => True
  | .hole _ => False

/-- The method is annotated with a function of its name, its parameter types and its result, as
they are resolved in the place `c`, and what it returns may stand where that result is expected. -/
def Method.Certified (c : Context) (m : Method) : Prop :=
  ∃ f types result, m.bound = some f ∧ f.name = m.name ∧
    m.parameters.length = types.length ∧
    c.types m.parameterTypeNames = .ok types ∧ f.parameterTypes = types.map some ∧
    c.resultType m.returnTypeName = .ok result ∧ f.returnType = some result ∧
    ∀ e, .stmt (.returning e) ∈ walkStmts m.body → Ty.Takes f.returnType e.type?

/-- The annotations of a node fit it. There is no hole among the nodes. -/
def Node.Certified (c : Context) : Node → Prop
  | .source _ => True
  | .field p => ∃ f v, p.field? = some f ∧ f.bound = some v ∧ v.name = f.name ∧ v.Admits f.value
  | .method p => ∃ m, p = .method m ∧ m.Certified c
  | .stmt s => s.Certified
  | .expr e => e.Certified
  | .stray _ | .gap => False

/-! ### What is in order is certified -/

theorem literalType_kind {v : Value} {t : Ty} (h : literalType v = .ok t) :
    ∃ b, v.builtin? = some b ∧ t = b.type ∧ ∀ n, v = .integer n → integerLiteralRange n := by
  cases v with
  | integer n =>
    by_cases hn : integerLiteralRange n
    · rw [literalType, if_pos hn] at h
      cases h
      exact ⟨_, rfl, rfl, fun m hm => by cases hm; exact hn⟩
    · rw [literalType, if_neg hn] at h
      split at h <;> cases h
  | decimal d =>
    rw [literalType] at h
    split at h <;> cases h
    exact ⟨_, rfl, rfl, fun m hm => by cases hm⟩
  | iterable items => cases h
  | object o => cases h
  | _ =>
    cases h
    exact ⟨_, rfl, rfl, fun m hm => by cases hm⟩

namespace Context

variable {c : Context} {name : Name}

theorem name_of_variableOf {v : Variable} (h : c.variableOf name = .ok v) : v.name = name := by
  unfold variableOf at h
  split at h
  · next w hw =>
    cases h
    obtain ⟨block, -, hb⟩ := List.exists_of_findSome?_eq_some hw
    simpa using List.find?_some hb
  · split at h
    · next s hs =>
      cases h
      obtain ⟨id, -, hid⟩ := List.exists_of_findSome?_eq_some (c.store.scopeVariable_ok.mp hs)
      exact (Table.mem_of_slot? hid).2
    · cases h

theorem name_of_memberOf {owner : Ty} {v : Variable} (h : c.memberOf owner name = .ok v) :
    v.name = name := by
  obtain ⟨s, hs, rfl⟩ := memberOf_ok.mp h
  simpa using List.find?_some hs

theorem name_of_functionOf {count : Nat} {f : Function} (h : c.functionOf name count = .ok f) :
    f.name = name := by
  obtain ⟨r, hr, rfl⟩ := functionOf_ok.mp h
  obtain ⟨id, -, -, hn, -⟩ := Store.mem_of_findFunction hr
  exact hn

theorem name_of_memberFunctionOf {owner : Ty} {count : Nat} {f : Function}
    (h : c.memberFunctionOf owner name count = .ok f) : f.name = name := by
  obtain ⟨r, hr, rfl⟩ := memberFunctionOf_ok.mp h
  exact (Table.mem_of_routine? hr).2.1

end Context

theorem Expr.Typed.certified {c : Context} {e : Expr} {t : Option Ty} (h : e.Typed c t) :
    e.Certified := by
  cases h with
  | literal hv =>
    obtain ⟨b, hb, rfl, hn⟩ := literalType_kind hv
    exact ⟨b, hb, rfl, hn⟩
  | group hb he => exact ⟨hb, he.type?_eq.symm⟩
  | binary hl hr hop =>
    refine ⟨_, ?_, rfl⟩
    rwa [hl.type?_eq, hr.type?_eq]
  | access hv ht => exact ⟨_, _, rfl, Context.name_of_variableOf hv, ht, rfl⟩
  | member ha hr hv ht => exact ⟨ha, _, _, rfl, Context.name_of_memberOf hv, ht, rfl⟩
  | call has hf ht =>
    refine ⟨_, rfl, Context.name_of_functionOf hf, ?_, rfl, ?_⟩
    · exact (Context.arity_of_functionOf hf).trans has.length_eq.symm
    · rwa [has.types_eq]
  | memberCall has ha hr hf ht =>
    refine ⟨ha, _, rfl, Context.name_of_memberFunctionOf hf, ?_, rfl, ?_⟩
    · rw [Function.arity, Context.arity_of_memberFunctionOf hf, has.length_eq]
    · rwa [has.types_eq]

/-- A declared variable admits the value it begins with. -/
theorem Declared.admits {c : Context} {typeName : Option Text} {value : Option Expr} {v : Variable}
    (h : Declared c typeName value v.type) : v.Admits value := by
  intro e t he ht
  subst he
  generalize hd : v.type = declared at h
  cases h with
  | inferred htyped =>
    rw [htyped.type?_eq] at ht
    exact ⟨t, ht, Ty.accepts_iff.mpr (.inl rfl)⟩
  | given _ htyped hk =>
    obtain ⟨d, s, hd', hs, ha⟩ := hk
    rw [htyped.type?_eq, hs] at ht
    cases ht
    exact ⟨d, hd', ha⟩

/-- Only `Boolean` may stand where a condition is expected. -/
theorem Ty.Takes.boolean {t : Option Ty} (h : Ty.Takes (some Builtin.boolean.type) t) :
    ∃ s, t = some s ∧ s.is .boolean = true := by
  obtain ⟨_, s, hb, rfl, ha⟩ := h
  cases hb
  refine ⟨s, rfl, ?_⟩
  rcases Ty.accepts_iff.mp ha with h | h | ⟨h, -⟩
  · rw [Ty.is, ← h]
    rfl
  · exact absurd (Builtin.name_injective (a := .boolean) h) (by decide)
  · exact absurd (Builtin.name_injective (a := .boolean) h) (by decide)

theorem Stmt.Typed.certified {c : Context} {s : Stmt} {declared : Option Variable}
    (h : s.Typed c declared) : s.Certified := by
  cases h with
  | expression hc he => exact hc
  | declaration hd hv =>
    rw [← Context.type_of_declare hv] at hd
    exact ⟨_, rfl, Context.name_of_declare hv, hd.admits⟩
  | assignment ha ht hv hk =>
    refine ⟨ha, ?_⟩
    rwa [ht.type?_eq, hv.type?_eq]
  | conditional hc hb =>
    rw [Certified, hc.type?_eq]
    exact hb.boolean
  | forEach hv hi =>
    rw [Certified, hv.type?_eq]
    exact ⟨_, rfl, hi⟩
  | whileLoop hc hb =>
    rw [Certified, hc.type?_eq]
    exact hb.boolean
  | returning => exact trivial

/-- Everything near a place is certified, wherever names of types are resolved. -/
theorem Node.TypedNear.certified {c d : Context} {n : Node} (h : n.TypedNear c) :
    n.Certified d := by
  cases h with
  | expr _ _ h => exact h.certified
  | stmt _ _ _ h => exact h.certified

/-! ### Types of calls -/

/-- Every function of the store promises something, as it is to be declared. -/
def Store.AllPromise (σ : Store) : Prop :=
  ∀ r, σ.HasRoutine r → r.function.returnType ≠ none

namespace Store.AllPromise

variable {σ τ : Store}

theorem of_same (h : σ.AllPromise) (hs : σ.SameFunctions τ) : τ.AllPromise :=
  fun r hr => h r (hs.hasRoutine hr)

theorem adds {top : TableId} {f : Function} (h : σ.AllPromise)
    (ha : AddsFunctions top σ τ [⟨f, none⟩]) (hf : f.returnType ≠ none) : τ.AllPromise :=
  ha.forall_routine h (List.forall_mem_singleton.mpr hf)

/-- A new pass only adds `print`, which promises `Nil`. -/
theorem newPass {parent : Option Scope} {print? : Option Implementation} {pass : Pass}
    (h : σ.AllPromise) (hp : NewPass σ parent print? pass τ) : τ.AllPromise :=
  hp.forall_routine h (Option.some_ne_none _)

end Store.AllPromise

/-- Where every function promises something every expression has a type. -/
theorem Expr.Typed.type_known {c : Context} {e : Expr} {t : Option Ty} (h : e.Typed c t)
    (hc : c.store.AllPromise) : e.type? ≠ none := by
  cases h with
  | literal hv => exact Option.some_ne_none _
  | group hb he =>
    cases he with
    | binary => exact Option.some_ne_none _
    | _ => cases hb
  | binary => exact Option.some_ne_none _
  | access => exact Option.some_ne_none _
  | member => exact Option.some_ne_none _
  | call has hf ht =>
    obtain ⟨r, hr, rfl⟩ := Context.functionOf_ok.mp hf
    obtain ⟨id, -, hmem, -⟩ := Store.mem_of_findFunction hr
    exact hc r ⟨id, hmem⟩
  | memberCall has ha hr hf ht =>
    obtain ⟨r, hr, rfl⟩ := Context.memberFunctionOf_ok.mp hf
    exact hc r ⟨_, (Table.mem_of_routine? hr).1⟩

theorem Node.TypedNear.type_known {c : Context} {e : Expr} (h : (Node.expr e).TypedNear c)
    (hc : c.store.AllPromise) : e.type? ≠ none := by
  cases h with
  | expr _ hs h => exact h.type_known (hs ▸ hc)

/-! ### The chain of stores -/

/-- The check changes no registry, so a name is resolved alike at all times. -/
structure Context.SameTypes (c d : Context) : Prop where
  types : ∀ names, d.types names = c.types names
  resultType : ∀ name, d.resultType name = c.resultType name

theorem Context.SameTypes.of_registries {c d : Context}
    (hs : d.store.registries = c.store.registries) (hp : d.pass = c.pass) : c.SameTypes d := by
  have htype (name : Text) : d.type name = c.type name := by
    simp only [type, Store.type, Store.type?, Store.registry, hs, hp]
  constructor
  · intro names
    induction names with
    | nil => rfl
    | cons n ns ih =>
      cases n with
      | none => rfl
      | some n =>
        simp only [Context.types, type?, htype, ih]
  · intro name
    cases name with
    | none => rfl
    | some n => exact htype n

namespace Pass

variable {pass : Pass} {σ τ υ : Store}

theorem AddsField.registries {p : FieldPlace} {v : Variable} (h : pass.AddsField σ p v τ) :
    τ.registries = σ.registries := by
  rw [h.store]
  rfl

theorem AddsMethod.registries {m : Method} {f : Function} (h : pass.AddsMethod σ m f τ) :
    τ.registries = σ.registries := by
  obtain ⟨record, rfl⟩ := h.store
  rfl

theorem AddsMethod.promise {m : Method} {f : Function} (h : pass.AddsMethod σ m f τ)
    (htop : σ.HasTable pass.scope.top) (hσ : σ.AllPromise) : τ.AllPromise := by
  obtain ⟨_, result, _, -, -, hr, -⟩ := h.body
  exact hσ.adds (h.functions htop) (hr ▸ Option.some_ne_none _)

end Pass

section Chain

variable {pass : Pass} {σ τ : Store}

theorem InOrder.fields_registries {ps ps' : List FieldPlace}
    (h : InOrder pass.FieldTyped σ ps ps' τ) : τ.registries = σ.registries := by
  refine h.preserves (P := fun υ => υ.registries = σ.registries) (fun hf hσ => ?_) rfl
  obtain ⟨v, hv⟩ := hf.adds
  exact hv.registries.trans hσ

theorem InOrder.methods_registries {ps ps' : List MethodPlace}
    (h : InOrder pass.MethodTyped σ ps ps' τ) : τ.registries = σ.registries := by
  refine h.preserves (P := fun υ => υ.registries = σ.registries) (fun hm hσ => ?_) rfl
  obtain ⟨m, f, -, hm⟩ := hm.adds
  exact hm.registries.trans hσ

/-- Each method is checked where every function promises something, if the host's do. -/
theorem InOrder.methods_promise {ps ps' : List MethodPlace}
    (h : InOrder pass.MethodTyped σ ps ps' τ) (htop : σ.HasTable pass.scope.top)
    (hσ : σ.AllPromise) : τ.HasTable pass.scope.top ∧ τ.AllPromise := by
  refine h.preserves (P := fun υ => υ.HasTable pass.scope.top ∧ υ.AllPromise)
    (fun hm hυ => ?_) ⟨htop, hσ⟩
  obtain ⟨m, f, -, hm⟩ := hm.adds
  exact ⟨(hm.functions hυ.1).hasTable hυ.1, hm.promise hυ.1 hυ.2⟩

/-! ### The whole tree -/

/-- A field and what is below it: the field is in order in a store with the types of the first, and
what is below is in order near a place in such a store. -/
theorem InOrder.fields_walk {ps ps' : List FieldPlace} {n : Node}
    (h : InOrder pass.FieldTyped σ ps ps' τ) (hn : n ∈ ps'.flatMap FieldPlace.walk) :
    (∃ ρ p v ρ', n = .field p ∧ pass.AddsField ρ p v ρ') ∨
      ∃ c, n.TypedNear c ∧ (σ.AllPromise → c.store.AllPromise) := by
  obtain ⟨p, hp, hnp⟩ := List.mem_flatMap.mp hn
  obtain ⟨before, after, rfl⟩ := List.append_of_mem hp
  obtain ⟨ρ, ρ', _, _, _, hbefore, hplace, -⟩ := h.split rfl
  obtain ⟨v, hv⟩ := hplace.adds
  obtain ⟨f, hf, -, -, hd⟩ := hv.bound
  rw [FieldPlace.walk_of_field? hf] at hnp
  rcases List.mem_cons.mp hnp with rfl | hn
  · exact .inl ⟨ρ, p, v, ρ', rfl, hv⟩
  · exact .inr ⟨_, .of_part (hd.exists_part hn), fun hσ => hσ.of_same hbefore.fields_same⟩

/-- A method and what is below it: the method is in order in a store with the types of the first,
and what is below is in order near a place in such a store. -/
theorem InOrder.methods_walk {ps ps' : List MethodPlace} {n : Node}
    (h : InOrder pass.MethodTyped σ ps ps' τ) (htop : σ.HasTable pass.scope.top)
    (hn : n ∈ ps'.flatMap MethodPlace.walk) :
    (∃ ρ m f ρ', n = .method (.method m) ∧ ρ.registries = σ.registries ∧
        pass.AddsMethod ρ m f ρ') ∨
      ∃ c, n.TypedNear c ∧ (σ.AllPromise → c.store.AllPromise) := by
  obtain ⟨p, hp, hnp⟩ := List.mem_flatMap.mp hn
  obtain ⟨before, after, rfl⟩ := List.append_of_mem hp
  obtain ⟨ρ, ρ', _, _, _, hbefore, hplace, -⟩ := h.split rfl
  obtain ⟨m, f, rfl, hm⟩ := hplace.adds
  obtain ⟨_, _, _, -, -, -, -, -, -, hbody⟩ := hm.body
  rcases List.mem_cons.mp hnp with rfl | hn
  · exact .inl ⟨ρ, m, f, ρ', rfl, hbefore.methods_registries, hm⟩
  · refine .inr ⟨_, hbody.near hn, fun hσ => ?_⟩
    obtain ⟨htop, hρ⟩ := hbefore.methods_promise htop hσ
    exact hm.promise htop hρ

end Chain

theorem Pass.AddsField.certified {pass : Pass} {σ τ : Store} {p : FieldPlace} {v : Variable}
    (h : pass.AddsField σ p v τ) (c : Context) : (Node.field p).Certified c := by
  obtain ⟨f, hf, hb, hn, hd⟩ := h.bound
  exact ⟨f, v, hf, hb, hn.symm, hd.admits⟩

theorem Pass.AddsMethod.certified {pass : Pass} {σ τ : Store} {m : Method} {f : Function}
    (h : pass.AddsMethod σ m f τ) {c : Context} (hc : (pass.context σ).SameTypes c) :
    m.Certified c := by
  obtain ⟨types, result, block, hl, hp, hr, hts, hres, -, hbody⟩ := h.body
  refine ⟨f, types, result, h.bound, h.name, hl, (hc.types _).trans hts, hp,
    (hc.resultType _).trans hres, hr, fun e he => ?_⟩
  cases hbody.near he with
  | stmt _ _ hreturns htyped =>
    cases htyped with
    | returning hresult hv ha =>
      rw [hreturns] at hresult
      cases hresult
      rw [hr, hv.type?_eq]
      exact ⟨_, _, rfl, rfl, ha⟩

/-- **The annotations of an accepted tree certify it.** Whatever the host provides, every node of
the tree that the check leaves behind is annotated with what fits it and its children, however
deep it stands.  If every function that the host has bound promises something, then every
expression has a type. -/
theorem Source.analyze_certifies {s : Source} {host : Host} {σ : Store}
    (h : (s.analyze host σ).verdict = .ok ()) :
    (∀ n ∈ (s.analyze host σ).tree.walk,
      n.Certified ((host.checker σ).1.context (host.checker σ).2)) ∧
    (σ.AllPromise → ∀ e, .expr e ∈ (s.analyze host σ).tree.walk → e.type? ≠ none) := by
  obtain ⟨τ, υ, record, htyped, -⟩ := Pass.check_typed h
  have hfields : AddsFunctions (host.checker σ).1.scope.top (host.checker σ).2 τ [] :=
    .of_same htyped.fields.fields_same
  have htop := hfields.hasTable (host.checker_spec σ).top
  constructor
  · intro n hn
    rcases List.mem_cons.mp hn with rfl | hn
    · exact trivial
    · rcases List.mem_append.mp hn with hn | hn
      · rcases htyped.fields.fields_walk hn with ⟨_, p, v, _, rfl, hv⟩ | ⟨_, hnear, -⟩
        · exact hv.certified _
        · exact hnear.certified
      · rcases htyped.methods.methods_walk htop hn with ⟨ρ, m, f, _, rfl, hreg, hm⟩ | ⟨_, hnear, -⟩
        · refine ⟨m, rfl, hm.certified (.of_registries ?_ rfl)⟩
          exact (hreg.trans htyped.fields.fields_registries).symm
        · exact hnear.certified
  · intro hσ e he
    have hpromise := hσ.newPass (host.checker_spec σ)
    rcases List.mem_cons.mp he with he | he
    · cases he
    · rcases List.mem_append.mp he with he | he
      · rcases htyped.fields.fields_walk he with ⟨_, _, _, _, he, -⟩ | ⟨c, hnear, hc⟩
        · cases he
        · exact hnear.type_known (hc hpromise)
      · rcases htyped.methods.methods_walk htop he with ⟨_, _, _, _, he, -⟩ | ⟨c, hnear, hc⟩
        · cases he
        · exact hnear.type_known (hc (hpromise.of_same htyped.fields.fields_same))

theorem Store.allPromise_opened (e : Encoding) : (Store.opened e).AllPromise := by
  rintro r ⟨id, hr⟩
  rw [Store.table_opened] at hr
  cases hr

/-- A source with a method that counts up to a field by calling itself from the second branch of a
conditional. -/
def Source.counting : Source where
  fields := [.field ⟨"limit", none, some (.literal (.integer 3) none), none⟩]
  methods :=
    [.method ⟨"count", ["n"], [some "Integer"], some "Integer",
      [.conditional (.group (.binary ">" (.access "n" none none) (.access "limit" none none) none)
          none)
        [.returning (.access "n" none none)]
        [.declaration "next" none
          (some (.binary "+" (.access "n" none none) (.literal (.integer 1) none) none)) none,
         .returning (.call "count" [.access "next" none none] none none)]], none⟩,
     .method ⟨"main", [], [], some "Integer",
      [.returning (.call "count" [.literal (.integer 0) none] none none)], none⟩]

theorem Source.analyze_certifies_counting :
    (counting.analyze Host.none .initial).verdict = .ok () ∧ Store.initial.AllPromise ∧
    (∀ n ∈ (counting.analyze Host.none .initial).tree.walk,
      n.Certified ((Host.none.checker .initial).1.context (Host.none.checker .initial).2)) ∧
    ∀ e, .expr e ∈ (counting.analyze Host.none .initial).tree.walk → e.type? ≠ none := by
  have h : (counting.analyze Host.none .initial).verdict = .ok () := by decide +kernel
  have hall := Source.analyze_certifies h
  exact ⟨h, Store.allPromise_opened _, hall.1, hall.2 (Store.allPromise_opened _)⟩

end Parlance
