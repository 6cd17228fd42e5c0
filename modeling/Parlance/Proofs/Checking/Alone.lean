/-
Programs without a host.

A pass that the host gives nothing works in a scope on its own and with a registry of the
built-in types, none of which has a member.  So whatever type an expression has there is a
built-in one, and nothing that passes the check has a receiver: neither a member nor a
function of a receiver could have been found.

The check of a field or a method adds to the scope's own table and to no other, so this
stays so from the first field to the last method.
-/
import Parlance.Proofs.Checking.Source
import Parlance.Proofs.Store.NewPass

namespace Parlance

/-- The type is known, and is a built-in one. -/
def Ty.Plain (t : Option Ty) : Prop :=
  ∃ (s : Ty) (b : Builtin), t = some s ∧ s.name = b.name

theorem Ty.plain_type (b : Builtin) : Ty.Plain (some b.type) :=
  ⟨b.type, b, rfl, rfl⟩

/-- A pass without a host, in a store it works on. -/
structure Pass.Alone (pass : Pass) (σ : Store) : Prop where
  outer : pass.scope.outer = []
  top : σ.HasTable pass.scope.top
  /-- Only built-in types are registered. -/
  registered : ∀ name t, σ.type? pass.registry name = some t → Ty.Plain (some t)
  /-- All of them are, each with a table of its own that has no members. -/
  builtin : ∀ b : Builtin, ∃ t, σ.type? pass.registry b.name = some t ∧
    t.members ≠ pass.scope.top ∧ σ.table t.members = Table.empty
  distinct : (σ.table pass.scope.top).Distinct
  slots : ∀ s ∈ (σ.table pass.scope.top).slots, Ty.Plain s.var.type
  routines : ∀ r ∈ (σ.table pass.scope.top).routines, Ty.Plain r.function.returnType

/-- A place without a host around it. -/
structure Context.Alone (c : Context) : Prop where
  pass : c.pass.Alone c.store
  blocks : ∀ block ∈ c.blocks, ∀ v ∈ block, Ty.Plain v.type

/-! ### Types of expressions -/

namespace Context.Alone

variable {c : Context} (h : c.Alone)

include h

theorem enter {block : List Variable} (hb : ∀ v ∈ block, Ty.Plain v.type) :
    (c.enter block).Alone := by
  refine ⟨h.pass, ?_⟩
  intro b hmem
  rcases List.mem_cons.mp hmem with rfl | hmem
  · exact hb
  · exact h.blocks b hmem

theorem extend {declared : Option Variable} (hd : ∀ v ∈ declared, Ty.Plain v.type) :
    (c.extend declared).Alone := by
  cases declared with
  | none => exact h
  | some v =>
    refine ⟨h.pass, ?_⟩
    intro b hmem w hw
    simp only [Context.extend] at hmem
    have hbl := h.blocks
    cases hc : c.blocks with
    | nil => simp [hc, Blocks.add] at hmem
    | cons block outer =>
      rw [hc] at hmem hbl
      rcases List.mem_cons.mp hmem with rfl | hmem
      · rcases List.mem_append.mp hw with hw | hw
        · exact hbl block List.mem_cons_self w hw
        · rw [List.mem_singleton.mp hw]
          exact hd v rfl
      · exact hbl b (List.mem_cons_of_mem _ hmem) w hw

theorem type {name : Text} {t : Ty} (ht : c.type name = .ok t) : Ty.Plain (some t) :=
  h.pass.registered name t (Context.type_ok.mp ht)

theorem types_plain {names : List Name} {types : List Ty} (ht : c.types names = .ok types) :
    ∀ t ∈ types, Ty.Plain (some t) := by
  induction names generalizing types with
  | nil =>
    cases ht
    exact fun t ht => absurd ht List.not_mem_nil
  | cons n ns ih =>
    simp only [Context.types] at ht
    split at ht
    · cases ht
    · next t hn =>
      obtain ⟨ts, hts, rfl⟩ := Except.map_ok.mp ht
      intro u hu
      rcases List.mem_cons.mp hu with rfl | hu
      · cases n with
        | none => cases hn
        | some name => exact h.type hn
      · exact ih hts u hu

theorem variableOf {name : Name} {v : Variable} (hv : c.variableOf name = .ok v) :
    Ty.Plain v.type := by
  unfold Context.variableOf at hv
  split at hv
  · next w hw =>
    cases hv
    obtain ⟨block, hb, hw⟩ := List.exists_of_findSome?_eq_some hw
    exact h.blocks block hb v (List.mem_of_find?_eq_some hw)
  · split at hv
    · next s hs =>
      cases hv
      rw [Store.scopeVariable_alone _ h.pass.outer] at hs
      exact h.pass.slots s (Table.mem_of_slot? hs).1
    · cases hv

theorem functionOf {name : Name} {count : Nat} {f : Function}
    (hf : c.functionOf name count = .ok f) : Ty.Plain f.returnType := by
  obtain ⟨r, hr, rfl⟩ := Context.functionOf_ok.mp hf
  rw [← Store.scopeFunction_ok, Store.scopeFunction_alone _ h.pass.outer] at hr
  exact h.pass.routines r (Table.mem_of_routine? hr).1

/-- No type has members. -/
theorem members {owner : Ty} (ho : Ty.Plain (some owner)) :
    c.store.table (c.store.membersOfType c.pass.registry owner) = Table.empty := by
  obtain ⟨s, b, hs, hb⟩ := ho
  cases hs
  obtain ⟨t, ht, -, hm⟩ := h.pass.builtin b
  unfold Store.membersOfType
  rw [hb, ht]
  exact hm

theorem memberOf_ne {owner : Ty} (ho : Ty.Plain (some owner)) (name : Name) (v : Variable) :
    c.memberOf owner name ≠ .ok v := by
  intro hv
  obtain ⟨s, hs, -⟩ := Context.memberOf_ok.mp hv
  rw [h.members ho] at hs
  exact List.not_mem_nil (Table.mem_of_slot? hs).1

theorem memberFunctionOf_ne {owner : Ty} (ho : Ty.Plain (some owner)) (name : Name)
    (count : Nat) (f : Function) : c.memberFunctionOf owner name count ≠ .ok f := by
  intro hf
  obtain ⟨r, hr, -⟩ := Context.memberFunctionOf_ok.mp hf
  rw [h.members ho] at hr
  exact List.not_mem_nil (Table.mem_of_routine? hr).1

end Context.Alone

theorem literalType_plain {v : Value} {t : Ty} (h : literalType v = .ok t) :
    Ty.Plain (some t) := by
  cases v <;> simp only [literalType] at h <;> (repeat' split at h) <;> cases h <;>
    exact Ty.plain_type _

theorem binaryType_plain {op : Name} {l r : Option Ty} {t : Ty} (h : binaryType op l r = .ok t) :
    Ty.Plain (some t) := by
  have comparison (h : Operator.comparisonType l r = .ok t) : Ty.Plain (some t) :=
    (Operator.comparisonType_ok h).1 ▸ Ty.plain_type _
  have number {a : Arithmetic} (h : Operator.numberType a l r = .ok t) : Ty.Plain (some t) := by
    rcases (Operator.numberType_ok h).1 with hn | hn
    · exact ⟨t, _, rfl, hn⟩
    · exact ⟨t, _, rfl, hn⟩
  unfold binaryType at h
  split at h
  · next o _ =>
    cases o with
    | and => exact (Operator.logicalType_ok h).1 ▸ Ty.plain_type _
    | or => exact (Operator.logicalType_ok h).1 ▸ Ty.plain_type _
    | equal => exact comparison h
    | notEqual => exact comparison h
    | ordered o => exact comparison h
    | arithmetic a =>
      cases a with
      | sum =>
        simp only [Operator.resultType] at h
        split at h
        · cases h
          exact Ty.plain_type _
        · exact number h
      | difference => exact number h
      | product => exact number h
      | quotient => exact number h
  · cases h

/-- **Every expression that is typed in a place without a host has a built-in type.** -/
theorem Expr.Typed.plain {c : Context} (h : c.Alone) {e : Expr} {t : Option Ty}
    (ht : e.Typed c t) : Ty.Plain t := by
  cases ht with
  | literal hv => exact literalType_plain hv
  | group _ he => exact he.plain h
  | binary _ _ hop => exact binaryType_plain hop
  | access hv ht => exact ht ▸ h.variableOf hv
  | member _ hr hv _ => exact absurd hv (h.memberOf_ne (hr.plain h) _ _)
  | call _ hf _ => exact h.functionOf hf
  | memberCall _ _ hr hf _ => exact absurd hf (h.memberFunctionOf_ne (hr.plain h) _ _ _)

/-! ### From field to field and from method to method -/

namespace Pass.Alone

variable {pass : Pass} {σ τ : Store} (h : pass.Alone σ)

include h

theorem context : (pass.context σ).Alone :=
  ⟨h, fun _ hb => absurd hb List.not_mem_nil⟩

/-- A change of the scope's own table alone, to one whose types are built-in ones. -/
theorem modifyTop (f : Table → Table) (hd : (f (σ.table pass.scope.top)).Distinct)
    (hs : ∀ s ∈ (f (σ.table pass.scope.top)).slots, Ty.Plain s.var.type)
    (hr : ∀ r ∈ (f (σ.table pass.scope.top)).routines, Ty.Plain r.function.returnType) :
    pass.Alone (σ.modifyTable pass.scope.top f) where
  outer := h.outer
  top := (σ.hasTable_modifyTable).mpr h.top
  registered := h.registered
  builtin b := by
    obtain ⟨t, ht, hne, hm⟩ := h.builtin b
    exact ⟨t, ht, hne, (σ.table_modifyTable_of_ne hne f).trans hm⟩
  distinct := by rwa [Store.table_modifyTable_self h.top]
  slots := by rwa [Store.table_modifyTable_self h.top]
  routines := by rwa [Store.table_modifyTable_self h.top]

theorem report (record : LogRecord) : pass.Alone (σ.report record) :=
  ⟨h.outer, h.top, h.registered, h.builtin, h.distinct, h.slots, h.routines⟩

theorem addVariable {v : Variable} (hv : Ty.Plain v.type)
    (hfree : (σ.table pass.scope.top).slot? v.name = none) : pass.Alone (pass.addVariable v σ) := by
  refine h.modifyTop _ (h.distinct.addSlot hfree) ?_ h.routines
  intro s hs
  rcases List.mem_append.mp hs with hs | hs
  · exact h.slots s hs
  · rw [List.mem_singleton.mp hs]
    exact hv

theorem addRoutine {r : Routine} (hr : Ty.Plain r.function.returnType)
    (hfree : (σ.table pass.scope.top).routine? r.function.name r.function.arity = none) :
    pass.Alone (σ.modifyTable pass.scope.top fun t => t.addRoutine r) := by
  refine h.modifyTop _ (h.distinct.addRoutine hfree) h.slots ?_
  intro r' hr'
  rcases List.mem_append.mp hr' with hr' | hr'
  · exact h.routines r' hr'
  · rw [List.mem_singleton.mp hr']
    exact hr

end Pass.Alone

theorem Declared.plain {c : Context} (h : c.Alone) {typeName : Option Text} {value : Option Expr}
    {t : Option Ty} (hd : Declared c typeName value t) : Ty.Plain t := by
  cases hd with
  | unset ht => exact h.type ht
  | inferred he => exact he.plain h
  | given ht _ _ => exact h.type ht

theorem Context.Alone.resultType {c : Context} (h : c.Alone) {name : Option Text} {t : Ty}
    (ht : c.resultType name = .ok t) : Ty.Plain (some t) := by
  cases name with
  | none =>
    cases ht
    exact Ty.plain_type _
  | some n => exact h.type ht

theorem Stmt.Typed.plain {c : Context} (h : c.Alone) {s : Stmt} {declared : Option Variable}
    (hs : s.Typed c declared) : ∀ v ∈ declared, Ty.Plain v.type := by
  intro v hv
  cases hs with
  | declaration hd hdecl =>
    cases hv
    rw [Context.type_of_declare hdecl]
    exact hd.plain h
  | _ => cases hv

theorem Pass.AddsField.alone {pass : Pass} {σ τ : Store} {p : FieldPlace} {v : Variable}
    (hf : pass.AddsField σ p v τ) (h : pass.Alone σ) : pass.Alone τ := by
  obtain ⟨f, -, -, -, hd⟩ := hf.bound
  exact hf.store ▸ h.addVariable (hd.plain h.context) hf.free

theorem Pass.AddsMethod.alone {pass : Pass} {σ τ : Store} {m : Method} {f : Function}
    (hm : pass.AddsMethod σ m f τ) (h : pass.Alone σ) : pass.Alone τ := by
  obtain ⟨record, rfl⟩ := hm.store
  obtain ⟨types, result, block, -, -, hr, -, hres, -⟩ := hm.body
  exact (h.addRoutine (hr ▸ h.context.resultType hres) hm.free).report record

/-- A pass that the host gives nothing begins alone. -/
theorem Store.newPass_alone (σ : Store) (print? : Option Implementation) :
    (σ.newPass none none print?).1.Alone (σ.newPass none none print?).2 := by
  have h := σ.newPass_spec none none print?
  obtain ⟨hreg, hne⟩ := σ.newPass_registry none print?
  refine ⟨h.outer, h.top, ?_, ?_, ?_, ?_, ?_⟩
  · intro name t ht
    obtain ⟨b, hb⟩ := hreg.name_of_type? ht
    exact ⟨t, b, rfl, hb⟩
  · intro b
    obtain ⟨t, ht, -, hm⟩ := hreg.type?_builtin b
    exact ⟨t, ht, hne t (List.mem_of_find?_eq_some ht), hm⟩
  · rw [h.table]
    exact Table.distinct_empty.addRoutine (r := ⟨printer _, print?⟩) rfl
  · rw [h.table]
    exact fun s hs => absurd hs List.not_mem_nil
  · rw [h.table]
    intro r hr
    rw [List.mem_singleton.mp hr]
    exact Ty.plain_type _

end Parlance
