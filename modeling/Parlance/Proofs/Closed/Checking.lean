/-
A source that needs no host is checked alike under every host.

Without a host a pass finds its own variables and functions and the built-in types, and no
members.  Another pass that has declared the same in its own scope finds the same there before it
looks into the scope around it, and its registry knows the built-in types too, so whatever the
host has bound or registered beside them never answers.
-/
import Parlance.Program
import Parlance.Proofs.Checking.Alone
import Parlance.Proofs.Paired.Checked
import Parlance.Proofs.Paired.Rename
import Parlance.Proofs.Paired.Tables
import Parlance.Proofs.Paired.Written

namespace Parlance

namespace Closed

/-- The same type, and a built-in one. Descriptions have the same names. -/
def correspondence : Correspondence where
  types t t' := t'.name = t.name ∧ Ty.Plain (some t)
  names := Eq
  typeNames _ := Eq

/-- The stores of a check without a host and of one with some host: what the passes have declared
in their own scopes corresponds. -/
structure Declared (p p' : Pass) (σ τ : Store) : Prop where
  outer : p.scope.outer = []
  top : σ.HasTable p.scope.top
  top' : τ.HasTable p'.scope.top
  /-- Without a host only built-in types are registered. -/
  registered : ∀ name t, σ.type? p.registry name = some t → Ty.Plain (some t)
  /-- All of them are, and none has members. -/
  builtin : ∀ b : Builtin, ∃ t, σ.type? p.registry b.name = some t ∧
    t.members ≠ p.scope.top ∧ σ.table t.members = Table.empty
  builtin' : ∀ b : Builtin, ∃ t, τ.type? p'.registry b.name = some t
  tables : correspondence.Tables (σ.table p.scope.top) (τ.table p'.scope.top)

/-- The collation of a check without a host and one with some host. -/
def collation (p p' : Pass) : Collation where
  toCorrespondence := correspondence
  stores := Declared p p'

variable {p p' : Pass} {σ τ : Store}

namespace Declared

variable (h : Declared p p' σ τ)
include h

/-- No type has members without a host. -/
theorem members {t : Ty} (ht : Ty.Plain (some t)) :
    σ.table (σ.membersOfType p.registry t) = Table.empty := by
  obtain ⟨s, b, ⟨⟩, hb⟩ := ht
  obtain ⟨u, hu, -, hempty⟩ := h.builtin b
  unfold Store.membersOfType
  rw [hb, hu]
  exact hempty

/-- Both passes declare in their own tables, and leave the rest as it is. -/
theorem modifyTop {f f' : Table → Table}
    (htables : correspondence.Tables (f (σ.table p.scope.top)) (f' (τ.table p'.scope.top))) :
    Declared p p' (σ.modifyTable p.scope.top f) (τ.modifyTable p'.scope.top f') where
  outer := h.outer
  top := σ.hasTable_modifyTable.mpr h.top
  top' := τ.hasTable_modifyTable.mpr h.top'
  registered := h.registered
  builtin b := by
    obtain ⟨t, ht, hne, hempty⟩ := h.builtin b
    exact ⟨t, ht, hne, (σ.table_modifyTable_of_ne hne f).trans hempty⟩
  builtin' := h.builtin'
  tables := by
    rwa [Store.table_modifyTable_self h.top, Store.table_modifyTable_self h.top']

end Declared

/-! ### Names without a host -/

/-- **What a name means without a host, it means under every host.** -/
theorem lawful (p p' : Pass) : (collation p p').Lawful p p' where
  name_eq h := h.1
  builtin b := ⟨rfl, Ty.plain_type b⟩
  names _ := rfl
  typeNames h := .inl (Eq.symm h)
  inferred _ h := nomatch (show some _ = none from h)
  type {σ τ n t} h ht := by
    obtain ⟨u, b, ⟨⟩, hb⟩ := h.registered n t ht
    have hn : t.name = n := by simpa using List.find?_some ht
    obtain ⟨t', ht'⟩ := h.builtin' b
    rw [← hb, hn] at ht'
    have hn' : t'.name = n := by simpa using List.find?_some ht'
    exact ⟨t', ht', hn'.trans hn.symm, t, b, rfl, hb⟩
  scopeVariable {σ τ n s} h hs := by
    obtain ⟨s', hs', hV⟩ :=
      exists_of_rel (h.tables.slot? Eq.symm n) ((σ.scopeVariable_alone h.outer).mp hs)
    refine ⟨s', τ.scopeVariable_ok.mpr ?_, hV⟩
    rw [Scope.tables, Store.findVariable_cons, hs', Option.some_or]
  scopeFunction {σ τ n count r} h hr := by
    obtain ⟨r', hr', hF⟩ :=
      exists_of_rel (h.tables.routine? n count) ((σ.scopeFunction_alone h.outer).mp hr)
    refine ⟨r', τ.scopeFunction_ok.mpr ?_, hF⟩
    rw [Scope.tables, Store.findFunction_cons, hr', Option.some_or]
  memberVariable {σ τ t t' n s} h ht hs := by
    rw [Store.memberVariable_ok, h.members ht.2] at hs
    cases hs
  memberFunction {σ τ t t' n count r} h ht hr := by
    rw [Store.memberFunction_ok, h.members ht.2] at hr
    cases hr
  addVariable h ht hfree :=
    ⟨none_of_rel (h.tables.slot? Eq.symm _) hfree, h.modifyTop (h.tables.addSlot ⟨rfl, rfl, ht⟩)⟩
  declareFunction h hts hr hd := by
    obtain ⟨f', hf, rfl, hd'⟩ := h.tables.declareFunction hts hr hd
    exact ⟨f', _, hd', hf, h.modifyTop (h.tables.addRoutine hf)⟩
  report _ h := ⟨h.outer, h.top, h.top', h.registered, h.builtin, h.builtin', h.tables⟩

/-- New passes correspond, if the host's registry knows the built-in types. -/
theorem declared_checker {host : Host} {σ : Store}
    (hknown : ∀ id ∈ host.registry, ∀ b : Builtin, ∃ t, σ.type? id b.name = some t) :
    Declared (Host.none.checker σ).1 (host.checker σ).1 (Host.none.checker σ).2
      (host.checker σ).2 := by
  have alone := σ.newPass_alone none
  have spec := σ.newPass_spec none none none
  have spec' := σ.newPass_spec host.parent host.registry none
  refine ⟨alone.outer, spec.top, spec'.top, alone.registered, alone.builtin, ?_, ?_⟩
  · intro b
    rcases hr : host.registry with _ | id
    · obtain ⟨t, ht, -⟩ := (σ.newPass_registry host.parent none).1.type?_builtin b
      refine ⟨t, ?_⟩
      rw [Host.checker, hr]
      exact ht
    · obtain ⟨t, ht⟩ := hknown id hr b
      refine ⟨t, ?_⟩
      rw [Host.checker, hr]
      exact ht
  · rw [Host.checker, Host.checker, spec'.table]
    rw [show Host.none.parent = none from rfl, show Host.none.registry = none from rfl, spec.table]
    refine ⟨.nil, .cons ⟨rfl, rfl, .cons (.some ⟨rfl, Ty.plain_type _⟩) .nil, ?_⟩ .nil⟩
    exact .some ⟨rfl, Ty.plain_type _⟩

/-! ### Annotated trees -/

theorem type?_eq {t t' : Option Ty} (h : correspondence.Open t t') :
    Document.type? t' = Document.type? t := by
  cases h with
  | none => rfl
  | some h => simp only [Document.type?, Option.map_some, h.1]

/-- Trees that are annotated with what corresponds are written alike. -/
theorem written : correspondence.tree.Written where
  renamings h n := (h n).symm
  typeNames h := h.symm
  types := type?_eq
  bound h := by
    cases h with
    | none => rfl
    | @some v v' h =>
      have hname : v.name = v'.name := h.name
      have htarget : v.targetName = v'.targetName := h.targetName
      simp only [Document.bound?, Option.map_some, Document.variableEntry, hname, htarget,
        type?_eq h.type]
  callee h := by
    cases h with
    | none => rfl
    | @some f f' h =>
      have parameters :
          f'.parameterTypes.map Document.type? = f.parameterTypes.map Document.type? :=
        List.forall₂_eq_eq_eq ▸ (List.forall₂_map_left_iff.mpr (List.forall₂_map_right_iff.mpr
          (h.parameterTypes.flip.imp fun _ _ => type?_eq)))
      simp only [Document.callee?, Option.map_some, Document.functionEntry, h.name, h.targetName,
        parameters, type?_eq h.returnType]

/-- **A source that passes the check without a host passes it under every host**, and is annotated
so that both trees are written alike. -/
theorem analyze {s : Source} {host : Host} {σ : Store}
    (hknown : ∀ id ∈ host.registry, ∀ b : Builtin, ∃ t, σ.type? id b.name = some t)
    (h : (s.analyze .none σ).verdict = .ok ()) :
    (s.analyze host σ).verdict = .ok () ∧
      Document.ofSource (s.analyze host σ).tree = Document.ofSource (s.analyze .none σ).tree := by
  have reflexive : correspondence.given.Reflexive :=
    ⟨fun _ _ => rfl, fun _ => trivial, fun _ => trivial, fun _ => trivial⟩
  have same : s.Alike correspondence.given s :=
    Source.alike_refl reflexive (fun _ => rfl) (Source.fits_of_literals (fun _ => trivial) s)
  have loose : correspondence.given.Looser correspondence.given :=
    Correspondence.given_loose fun _ h => h
  obtain ⟨verdict, tree⟩ := (lawful _ _).checkSource loose (declared_checker hknown) same h
  exact ⟨verdict, tree.ofSource_eq written⟩

end Closed

end Parlance
