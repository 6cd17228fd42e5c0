/-
Two checks side by side.

A collation says which stores and types of one check correspond to those of another, the passes of
the two being given.  It is lawful when whatever a name means to the first pass, the second finds
something that corresponds under the same name, and when declaring the same on both sides leads
from stores that correspond to such again.

Nothing is said about what the first pass does not find, so that a collation leads from a check
that accepts to one that accepts, and says nothing about one that refuses.
-/
import Parlance.Proofs.Checking.Source
import Parlance.Proofs.Paired.Walk

namespace Parlance

/-- Which types and which names in descriptions correspond. -/
structure Correspondence where
  types : Ty → Ty → Prop
  /-- The names that variables are described with. -/
  names : Name → Name → Prop
  /-- The types that declarations name, the value of the first one being given. -/
  typeNames : Option Expr → Option Text → Option Text → Prop

namespace Correspondence

variable (k : Correspondence)

/-- Types that may be left open. -/
abbrev Open : Option Ty → Option Ty → Prop :=
  Option.Rel k.types

/-- Descriptions of variables that correspond. -/
structure Variables (v v' : Variable) : Prop where
  name : k.names v.name v'.name
  targetName : k.names v.targetName v'.targetName
  type : k.Open v.type v'.type

/-- Descriptions of functions that correspond. -/
structure Functions (f f' : Function) : Prop where
  name : f'.name = f.name
  targetName : f'.targetName = f.targetName
  parameterTypes : List.Forall₂ k.Open f.parameterTypes f'.parameterTypes
  returnType : k.Open f.returnType f'.returnType

/-- What annotated trees that correspond agree in. -/
def tree : Likeness where
  literals _ := True
  renamings ν := ∀ n, k.names n (ν.name n)
  typeNames := k.typeNames
  types := k.Open
  bound := Option.Rel k.Variables
  callee := Option.Rel k.Functions

/-- What trees that are given to the checks agree in: their annotations do not matter. -/
def given : Likeness where
  literals _ := True
  renamings ν := ∀ n, k.names n (ν.name n)
  typeNames := k.typeNames
  types _ _ := True
  bound _ _ := True
  callee _ _ := True

/-- What types that correspond agree in, the types in annotated trees that correspond do. -/
theorem tree_typesBy {β : Type} {f : Ty → β} (hf : ∀ {t t'}, k.types t t' → f t' = f t) :
    k.tree.TypesBy f := by
  have types {t t' : Option Ty} (h : k.Open t t') : t'.map f = t.map f := by
    cases h with
    | none => rfl
    | some h => exact congrArg some (hf h)
  refine ⟨types, fun h => ?_, fun h => ?_⟩
  · cases h with
    | none => rfl
    | some h => exact congrArg some (types h.type)
  · cases h with
    | none => rfl
    | @some g g' h =>
      have parameters :
          g'.parameterTypes.map (Option.map f) = g.parameterTypes.map (Option.map f) :=
        List.forall₂_eq_eq_eq ▸ (List.forall₂_map_left_iff.mpr (List.forall₂_map_right_iff.mpr
          (h.parameterTypes.flip.imp fun _ _ => types)))
      simp only [Option.map_some, Function.types, Prod.map, parameters, types h.returnType]

end Correspondence

/-- What corresponds in two checks. -/
structure Collation extends Correspondence where
  stores : Store → Store → Prop

namespace Collation

variable (k : Collation)

/-- Looking up and declaring what corresponds leads to what corresponds. -/
structure Lawful (p p' : Pass) : Prop where
  name_eq : ∀ {t t'}, k.types t t' → t'.name = t.name
  builtin : ∀ b : Builtin, k.types b.type b.type
  names : ∀ n, k.names n n
  /-- Only a declaration with a value may name a type on one side and none on the other. -/
  typeNames : ∀ {e n n'}, k.typeNames e n n' → n' = n ∨ (e.isSome = true ∧ n' = none)
  /-- Then the type of the value corresponds to the one that was named. -/
  inferred : ∀ {σ τ e n t u}, k.stores σ τ → k.typeNames (some e) (some n) none →
    σ.type? p.registry n = some t → k.Open e.type? u → k.Open (some t) u
  type : ∀ {σ τ n t}, k.stores σ τ → σ.type? p.registry n = some t →
    ∃ t', τ.type? p'.registry n = some t' ∧ k.types t t'
  scopeVariable : ∀ {σ τ n s}, k.stores σ τ → σ.scopeVariable p.scope n = .ok s →
    ∃ s', τ.scopeVariable p'.scope n = .ok s' ∧ k.Variables s.var s'.var
  scopeFunction : ∀ {σ τ n count r}, k.stores σ τ → σ.scopeFunction p.scope n count = .ok r →
    ∃ r', τ.scopeFunction p'.scope n count = .ok r' ∧ k.Functions r.function r'.function
  memberVariable : ∀ {σ τ t t' n s}, k.stores σ τ → k.types t t' →
    σ.memberVariable (σ.membersOfType p.registry t) n = .ok s →
    ∃ s', τ.memberVariable (τ.membersOfType p'.registry t') n = .ok s' ∧
      k.Variables s.var s'.var
  memberFunction : ∀ {σ τ t t' n count r}, k.stores σ τ → k.types t t' →
    σ.memberFunction (σ.membersOfType p.registry t) n count = .ok r →
    ∃ r', τ.memberFunction (τ.membersOfType p'.registry t') n count = .ok r' ∧
      k.Functions r.function r'.function
  addVariable : ∀ {σ τ n t t'}, k.stores σ τ → k.Open t t' →
    (σ.table p.scope.top).slot? n = none →
    (τ.table p'.scope.top).slot? n = none ∧
      k.stores (p.addVariable ⟨n, n, t, .table p.scope.top⟩ σ)
        (p'.addVariable ⟨n, n, t', .table p'.scope.top⟩ τ)
  declareFunction : ∀ {σ σ₁ τ n ts ts' r r' f}, k.stores σ τ → List.Forall₂ k.types ts ts' →
    k.types r r' →
    σ.declareFunction p.scope.top n (ts.map some) (some r) none none = .ok (f, σ₁) →
    ∃ f' τ₁, τ.declareFunction p'.scope.top n (ts'.map some) (some r') none none = .ok (f', τ₁) ∧
      k.Functions f f' ∧ k.stores σ₁ τ₁
  report : ∀ {σ τ} r, k.stores σ τ → k.stores (σ.report r) (τ.report r)

/-- Where code that corresponds is checked: the blocks hold variables that correspond, under other
names, and the method's own names are those of variables in them. -/
structure Places (p p' : Pass) (ν : Renaming) (c c' : Context) : Prop where
  pass : c.pass = p
  pass' : c'.pass = p'
  stores : k.stores c.store c'.store
  names : ∀ n, k.names n (ν.name n)
  blocks : List.Forall₂ (List.Forall₂ fun v v' => v'.name = ν.name v.name ∧ k.Variables v v')
    c.blocks c'.blocks
  own : ∀ n, ν.own n → ∃ b ∈ c.blocks, ∃ v ∈ b, v.name = n
  returns : k.Open c.returns? c'.returns?

variable {k} {p p' : Pass} {ν : Renaming} {c c' : Context}

/-! ### Types -/

section Types

variable (hk : k.Lawful p p')
include hk

theorem Lawful.accepts {t t' s s' : Ty} (ht : k.types t t') (hs : k.types s s') :
    t'.accepts s' = t.accepts s := by
  simp only [Ty.accepts, Ty.is, hk.name_eq ht, hk.name_eq hs]

theorem Lawful.takes {t t' s s' : Option Ty} (ht : k.Open t t') (hs : k.Open s s')
    (h : Ty.Takes t s) : Ty.Takes t' s' := by
  obtain ⟨u, v, rfl, rfl, ha⟩ := h
  cases ht with
  | some ht =>
    cases hs with
    | some hs => exact ⟨_, _, rfl, rfl, (hk.accepts ht hs).trans ha⟩

theorem Lawful.require {t t' s s' : Ty} (ht : k.types t t') (hs : k.types s s')
    (h : t.accepts s = true) : t'.require (some s') = .ok s' :=
  Ty.require_ok.mpr ⟨rfl, (hk.accepts ht hs).trans h⟩

theorem Lawful.isKnown {t t' : Option Ty} (ht : k.Open t t') (b : Builtin) :
    Ty.isKnown t' b = Ty.isKnown t b := by
  cases ht with
  | none => rfl
  | some h => simp only [Ty.isKnown, Option.any_some, Ty.is, hk.name_eq h]

theorem Lawful.comparisonType {l l' r r' : Option Ty} {t : Ty} (hl : k.Open l l')
    (hr : k.Open r r') (h : Operator.comparisonType l r = .ok t) :
    ∃ t', Operator.comparisonType l' r' = .ok t' ∧ k.types t t' := by
  simp only [Operator.comparisonType, bind_ok, Ty.require_ok] at h
  obtain ⟨u, ⟨rfl, hu⟩, v, ⟨rfl, hv⟩, h⟩ := h
  cases hl with
  | some hl =>
    cases hr with
    | some hr =>
      by_cases hs : u.same v = true
      · rw [if_pos hs] at h
        cases h
        refine ⟨_, ?_, hk.builtin .boolean⟩
        simp only [Operator.comparisonType, hk.require (hk.builtin _) hl hu,
          hk.require (hk.builtin _) hr hv, bind, Except.bind]
        rw [if_pos]
        · rfl
        · simpa only [Ty.same, hk.name_eq hl, hk.name_eq hr] using hs
      · rw [if_neg hs] at h
        cases h

theorem Lawful.logicalType {l l' r r' : Option Ty} {t : Ty} (hl : k.Open l l')
    (hr : k.Open r r') (h : Operator.logicalType l r = .ok t) :
    ∃ t', Operator.logicalType l' r' = .ok t' ∧ k.types t t' := by
  obtain ⟨rfl, ⟨_, u, ⟨⟩, rfl, hu⟩, ⟨_, v, ⟨⟩, rfl, hv⟩⟩ := Operator.logicalType_ok h
  cases hl with
  | some hl =>
    cases hr with
    | some hr =>
      refine ⟨_, ?_, hk.builtin .boolean⟩
      simp only [Operator.logicalType, hk.require (hk.builtin _) hl hu,
        hk.require (hk.builtin _) hr hv, bind, Except.bind]
      rfl

theorem Lawful.numberType {op : Arithmetic} {l l' r r' : Option Ty} {t : Ty} (hl : k.Open l l')
    (hr : k.Open r r') (h : Operator.numberType op l r = .ok t) :
    ∃ t', Operator.numberType op l' r' = .ok t' ∧ k.types t t' := by
  obtain ⟨hn, rfl, s, rfl, hs⟩ := Operator.numberType_ok h
  cases hl with
  | @some _ u hl =>
    cases hr with
    | @some _ v hr =>
      refine ⟨u, ?_, hl⟩
      have hnumber : (u.is .integer || u.is .decimal) = true := by
        simpa [Ty.is, hk.name_eq hl] using hn
      have hsame : v.same u = true := by
        simpa [Ty.same, hk.name_eq hl, hk.name_eq hr] using hs
      simp only [Operator.numberType, Ty.known, bind, Except.bind, hnumber, if_true, hsame]
      rfl

/-- Operators have results of types that correspond, on operands of such. -/
theorem Lawful.binaryType {op : Name} {l l' r r' : Option Ty} {t : Ty} (hl : k.Open l l')
    (hr : k.Open r r') (h : Parlance.binaryType op l r = .ok t) :
    ∃ t', Parlance.binaryType op l' r' = .ok t' ∧ k.types t t' := by
  unfold Parlance.binaryType at h ⊢
  split at h
  case h_2 => cases h
  next o ho =>
    cases o with
    | and => exact hk.logicalType hl hr h
    | or => exact hk.logicalType hl hr h
    | equal => exact hk.comparisonType hl hr h
    | notEqual => exact hk.comparisonType hl hr h
    | ordered o => exact hk.comparisonType hl hr h
    | arithmetic a =>
      cases a with
      | sum =>
        simp only [Operator.resultType, hk.isKnown hl, hk.isKnown hr] at h ⊢
        split at h
        · next hstring =>
          cases h
          exact ⟨_, if_pos hstring, hk.builtin .string⟩
        · next hstring =>
          obtain ⟨t', ht', hT⟩ := hk.numberType hl hr h
          exact ⟨t', (if_neg hstring).trans ht', hT⟩
      | difference => exact hk.numberType hl hr h
      | product => exact hk.numberType hl hr h
      | quotient => exact hk.numberType hl hr h

theorem Lawful.requireAll {ps ps' as as' : List (Option Ty)} (hps : List.Forall₂ k.Open ps ps')
    (has : List.Forall₂ k.Open as as') (h : List.Forall₂ Ty.Takes ps as) :
    Parlance.requireAll ps' as' = .ok () := by
  induction h generalizing ps' as' with
  | nil =>
    cases hps
    cases has
    rfl
  | cons h _ ih =>
    cases hps with
    | cons hp hps =>
      cases has with
      | cons ha has =>
        obtain ⟨t, s, rfl, rfl, haccepts⟩ := hk.takes hp ha h
        simp only [Parlance.requireAll, Ty.known, Ty.require_ok.mpr ⟨rfl, haccepts⟩, bind,
          Except.bind]
        exact ih hps has

theorem Lawful.literalType {v : Value} {t : Ty} (h : Parlance.literalType v = .ok t) :
    k.types t t := by
  cases v <;> simp only [Parlance.literalType] at h <;> (repeat' split at h) <;> cases h <;>
    exact hk.builtin _

end Types

/-! ### Names -/

namespace Places

theorem type (hk : k.Lawful p p') (h : k.Places p p' ν c c') {n : Text} {t : Ty}
    (ht : c.type n = .ok t) : ∃ t', c'.type n = .ok t' ∧ k.types t t' := by
  rw [Context.type_ok, h.pass] at ht
  obtain ⟨t', ht', hT⟩ := hk.type h.stores ht
  exact ⟨t', Context.type_ok.mpr (h.pass' ▸ ht'), hT⟩

/-- A name that means a variable of the blocks means one that corresponds, under its other name. -/
theorem find? (h : k.Places p p' ν c c') (n : Name) :
    Option.Rel k.Variables (c.blocks.find? n) (c'.blocks.find? (ν.name n)) := by
  have hblocks := h.blocks
  unfold Blocks.find?
  generalize c.blocks = bs at hblocks
  generalize c'.blocks = bs' at hblocks
  induction hblocks with
  | nil => exact .none
  | @cons b b' _ _ hb _ ih =>
    rw [List.findSome?_cons, List.findSome?_cons]
    have hfound : Option.Rel _ (b.find? fun v => v.name == n)
        (b'.find? fun v => v.name == ν.name n) :=
      forall₂_find? (fun hv => by rw [Bool.eq_iff_iff]; simp [hv.1, ν.name_eq_iff]) hb
    generalize (b.find? fun v => v.name == n) = found at hfound
    generalize (b'.find? fun v => v.name == ν.name n) = found' at hfound
    cases hfound with
    | none => exact ih
    | some hv => exact .some hv.2

theorem variableOf (hk : k.Lawful p p') (h : k.Places p p' ν c c') {n : Name} {v : Variable}
    (hn : ν.Allows n) (hv : c.variableOf n = .ok v) :
    ∃ v', c'.variableOf (ν.name n) = .ok v' ∧ k.Variables v v' := by
  have hfind := h.find? n
  unfold Context.variableOf at hv ⊢
  split at hv
  · next w hw =>
    cases hv
    rw [hw] at hfind
    generalize c'.blocks.find? (ν.name n) = found at hfind
    cases hfind with
    | some hvar => exact ⟨_, rfl, hvar⟩
  · next hnone =>
    have same : ν.name n = n := by
      rcases hn with hn | hn
      · obtain ⟨b, hb, w, hw, hname⟩ := h.own n hn
        have hmissing := List.findSome?_eq_none_iff.mp hnone b hb
        exact absurd (by simpa using hname) (List.find?_eq_none.mp hmissing w hw)
      · exact hn
    rw [hnone] at hfind
    generalize hfound : c'.blocks.find? (ν.name n) = found at hfind
    cases hfind
    split at hv
    · next s hs =>
      cases hv
      rw [h.pass] at hs
      obtain ⟨s', hs', hvar⟩ := hk.scopeVariable h.stores hs
      refine ⟨s'.var, ?_, hvar⟩
      rw [h.pass', same, hs']
    · cases hv

theorem functionOf (hk : k.Lawful p p') (h : k.Places p p' ν c c') {n : Name} {count : Nat}
    {f : Function} (hf : c.functionOf n count = .ok f) :
    ∃ f', c'.functionOf n count = .ok f' ∧ k.Functions f f' := by
  obtain ⟨r, hr, rfl⟩ := Context.functionOf_ok.mp hf
  rw [h.pass, ← Store.scopeFunction_ok] at hr
  obtain ⟨r', hr', hF⟩ := hk.scopeFunction h.stores hr
  refine ⟨_, Context.functionOf_ok.mpr ⟨r', ?_, rfl⟩, hF⟩
  rw [h.pass']
  exact (Store.scopeFunction_ok _).mp hr'

theorem memberOf (hk : k.Lawful p p') (h : k.Places p p' ν c c') {t t' : Ty} {n : Name}
    {v : Variable} (ht : k.types t t') (hv : c.memberOf t n = .ok v) :
    ∃ v', c'.memberOf t' n = .ok v' ∧ k.Variables v v' := by
  obtain ⟨s, hs, rfl⟩ := Context.memberOf_ok.mp hv
  rw [h.pass, ← Store.memberVariable_ok] at hs
  obtain ⟨s', hs', hV⟩ := hk.memberVariable h.stores ht hs
  refine ⟨_, Context.memberOf_ok.mpr ⟨s', ?_, rfl⟩, hV⟩
  rw [h.pass']
  exact (Store.memberVariable_ok _).mp hs'

theorem memberFunctionOf (hk : k.Lawful p p') (h : k.Places p p' ν c c') {t t' : Ty} {n : Name}
    {count : Nat} {f : Function} (ht : k.types t t')
    (hf : c.memberFunctionOf t n count = .ok f) :
    ∃ f', c'.memberFunctionOf t' n count = .ok f' ∧ k.Functions f f' := by
  obtain ⟨r, hr, rfl⟩ := Context.memberFunctionOf_ok.mp hf
  rw [h.pass, ← Store.memberFunction_ok] at hr
  obtain ⟨r', hr', hF⟩ := hk.memberFunction h.stores ht hr
  refine ⟨_, Context.memberFunctionOf_ok.mpr ⟨r', ?_, rfl⟩, hF⟩
  rw [h.pass']
  exact (Store.memberFunction_ok _).mp hr'

/-! ### Blocks -/

theorem enter (h : k.Places p p' ν c c') {b b' : List Variable}
    (hb : List.Forall₂ (fun v v' => v'.name = ν.name v.name ∧ k.Variables v v') b b') :
    k.Places p p' ν (c.enter b) (c'.enter b') where
  pass := h.pass
  pass' := h.pass'
  stores := h.stores
  names := h.names
  blocks := .cons hb h.blocks
  own n hn := by
    obtain ⟨b, hb, hv⟩ := h.own n hn
    exact ⟨b, List.mem_cons_of_mem _ hb, hv⟩
  returns := h.returns

theorem extend (h : k.Places p p' ν c c') {d d' : Option Variable}
    (hd : Option.Rel (fun v v' => v'.name = ν.name v.name ∧ k.Variables v v') d d') :
    k.Places p p' ν (c.extend d) (c'.extend d') := by
  cases hd with
  | none => exact h
  | @some v v' hv =>
    refine ⟨h.pass, h.pass', h.stores, h.names, ?_, ?_, h.returns⟩
    · have hblocks := h.blocks
      simp only [Context.extend]
      generalize c.blocks = bs at hblocks
      generalize c'.blocks = bs' at hblocks
      cases hblocks with
      | nil => exact .nil
      | cons hb hbs => exact .cons (List.rel_append hb (.cons hv .nil)) hbs
    · intro n hn
      obtain ⟨b, hb, w, hw, hname⟩ := h.own n hn
      simp only [Context.extend]
      cases hc : c.blocks with
      | nil =>
        rw [hc] at hb
        cases hb
      | cons b₀ outer =>
        rw [hc] at hb
        rcases List.mem_cons.mp hb with rfl | hb
        · exact ⟨_, List.mem_cons_self, w, List.mem_append_left _ hw, hname⟩
        · exact ⟨b, List.mem_cons_of_mem _ hb, w, hw, hname⟩

end Places

end Collation

end Parlance
