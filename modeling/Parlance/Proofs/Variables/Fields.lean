/-
The variables of the fields.

Both passes declare the fields of a source in their order, each in a table of its own.  The check
annotates a field with the variable it has made for it; the evaluation makes another one, of the
same name, when it declares the field.  So once both have declared the same fields, the variables
in both tables correspond one by one, and each pair belongs to one field.

Around both tables is the scope that the host gives, and there the same variables are found.
-/
import Mathlib.Data.List.Induction
import Mathlib.Data.List.Nodup
import Parlance.Proofs.Calls.Resolution
import Parlance.Proofs.Running.Added

namespace Parlance

open Store (Declares Twins)

/-- The scope of the host is there in both stores, and has the same variables in them. -/
structure Host.Presents (host : Host) (σ τ : Store) : Prop where
  checked : ∀ id ∈ host.tables, σ.HasTable id
  evaluated : ∀ id ∈ host.tables, τ.HasTable id
  vars : ∀ id ∈ host.tables, τ.vars id = σ.vars id

/-- The variable that the field of that number is annotated with. -/
def Source.fieldVariable? (s : Source) (k : Nat) : Option Variable :=
  s.fields[k]?.bind fun p => p.field?.bind Field.bound

/-- The evaluation of the source, begun in that store with so much fuel, has made the variable for
the field of that number: when those before it had been declared, its declaration came next, and
this is what it added to the own table. -/
def Source.Makes (s : Source) (host : Host) (fuel : Nat) (σ : Store) (k : Nat) (u : Variable) :
    Prop :=
  ∃ p τ τ', s.fields[k]? = some p ∧
    (s.fields.take k).forM ((host.evaluator σ).1.declareFieldPlace fuel) (host.evaluator σ).2
      = .ok () τ ∧
    (host.evaluator σ).1.declareFieldPlace fuel p τ = .ok () τ' ∧
    Declares (host.evaluator σ).1.scope.top τ τ' [u]

variable {pass : Pass} {σ τ : Store} {fuel : Nat}

/-! ### The check -/

/-- A field stands in that place and is annotated with the variable, which bears its name. -/
def FieldPlace.Has (p : FieldPlace) (v : Variable) : Prop :=
  ∃ f, p.field? = some f ∧ f.bound = some v ∧ f.name = v.name

theorem Pass.AddsField.declares {p : FieldPlace} {v : Variable} (h : pass.AddsField σ p v τ)
    (htop : σ.HasTable pass.scope.top) : Declares pass.scope.top σ τ [v] :=
  h.store ▸ Declares.addSlot htop ⟨v, .nil⟩

theorem Pass.AddsField.has {p : FieldPlace} {v : Variable} (h : pass.AddsField σ p v τ) :
    p.Has v := by
  obtain ⟨f, hf, hbound, hname, -⟩ := h.bound
  exact ⟨f, hf, hbound, hname⟩

/-- The name of a new field is not that of a variable which its table has. -/
theorem Pass.AddsField.fresh {p : FieldPlace} {v : Variable} (h : pass.AddsField σ p v τ) :
    v.name ∉ (σ.vars pass.scope.top).map Variable.name := by
  intro hmem
  obtain ⟨w, hw, hname⟩ := List.mem_map.mp hmem
  obtain ⟨s, hs, rfl⟩ := List.mem_map.mp hw
  exact absurd hname (by simpa using List.find?_eq_none.mp h.free s hs)

/-- The check of fields adds one variable for each of them, under names of their own. -/
theorem InOrder.fields_declare {ps ps' : List FieldPlace} (h : InOrder pass.FieldTyped σ ps ps' τ)
    (htop : σ.HasTable pass.scope.top)
    (hnames : ((σ.vars pass.scope.top).map Variable.name).Nodup) :
    ∃ vs, Declares pass.scope.top σ τ vs ∧ List.Forall₂ FieldPlace.Has ps' vs ∧
      ((τ.vars pass.scope.top).map Variable.name).Nodup := by
  induction h with
  | nil => exact ⟨[], .of_eq rfl, .nil, hnames⟩
  | cons hp _ ih =>
    obtain ⟨v, hv⟩ := hp.adds
    have hadd := hv.declares htop
    obtain ⟨vs, hvs, hhas, hnodup⟩ := ih (hv.same.hasTable htop) (by
      rw [hadd.own, List.map_append]
      refine List.nodup_append.mpr ⟨hnames, List.nodup_singleton _, ?_⟩
      rintro n hn n' hn' rfl
      exact hv.fresh (List.mem_singleton.mp hn' ▸ hn))
    exact ⟨v :: vs, hadd.trans hvs, .cons hv.has hhas, hnodup⟩

/-- The check of methods declares no variable. -/
theorem InOrder.methods_vars {ps ps' : List MethodPlace}
    (h : InOrder pass.MethodTyped σ ps ps' τ) : τ.vars = σ.vars := by
  refine h.preserves (P := fun υ => υ.vars = σ.vars) (fun hp hσ => ?_) rfl
  obtain ⟨m, f, -, hm⟩ := hp.adds
  obtain ⟨record, rfl⟩ := hm.store
  exact (Store.vars_addRoutine _ _ _).trans hσ

/-! ### The evaluation -/

theorem Pass.declareFieldPlace_declares {p : FieldPlace} {f : Field} (hp : p.field? = some f)
    (h : pass.declareFieldPlace fuel p σ = .ok () τ) (htop : σ.HasTable pass.scope.top) :
    ∃ u, u.name = f.name ∧ Declares pass.scope.top σ τ [u] := by
  have hadds := (binds_declareFieldPlace pass fuel p htop h).vars
  have hdeclares : p.declares? = some f.name := by
    cases p with
    | hole g => cases hp
    | _ g =>
      cases hp
      rfl
  rw [Pass.fieldVariable?, hdeclares] at hadds
  exact ⟨pass.ownVariable f.name, rfl, hadds⟩

/-- Declaring methods declares no variable. -/
theorem Pass.declareMethods_vars {ps : List MethodPlace}
    (h : ps.forM pass.declareMethodPlace σ = .ok () τ) (htop : σ.HasTable pass.scope.top) :
    τ.vars = σ.vars := by
  have hadds := binds_forM (fun _ => none) pass.methodRoutine? (binds_declareMethodPlace pass) ps
    htop h
  rw [List.filterMap_none] at hadds
  exact hadds.vars.eq_of_nil

variable {host : Host}

/-- Declaring the first fields of a source makes one variable for each of them. -/
theorem Source.makes_fields {tree : Source} {ps after : List FieldPlace} {ρ : Store}
    (he : tree.fields = ps ++ after) (hps : ∀ p ∈ ps, ∃ f, p.field? = some f)
    (h : ps.forM ((host.evaluator τ).1.declareFieldPlace fuel) (host.evaluator τ).2 = .ok () ρ) :
    ∃ us, Declares (host.evaluator τ).1.scope.top (host.evaluator τ).2 ρ us ∧
      List.Forall₂ (fun p u => ∃ k f, tree.fields[k]? = some p ∧ tree.Makes host fuel τ k u ∧
        p.field? = some f ∧ u.name = f.name) ps us := by
  induction ps using List.reverseRecOn generalizing after ρ with
  | nil =>
    cases h
    exact ⟨[], .of_eq rfl, .nil⟩
  | append_singleton ps p ih =>
    have he' : tree.fields = ps ++ p :: after := by rw [he, List.append_assoc]; rfl
    have hget : tree.fields[ps.length]? = some p := by simp [he']
    have htake : tree.fields.take ps.length = ps := by simp [he']
    rw [List.forM_eq_forM, List.forM_append] at h
    obtain ⟨_, ρ', hfirst, hlast⟩ := Eval.bind_ok.mp h
    obtain ⟨_, ρ'', hp, hnil⟩ := Eval.bind_ok.mp hlast
    cases hnil
    obtain ⟨us, hus, hall⟩ := ih he' (fun q hq => hps q (List.mem_append_left _ hq)) hfirst
    obtain ⟨f, hf⟩ := hps p (List.mem_append_right _ List.mem_cons_self)
    have htop := (stable_declareFields _ _ _ hfirst).hasTable (host.evaluator_spec τ).top
    obtain ⟨u, hname, hu⟩ := Pass.declareFieldPlace_declares hf hp htop
    have hmakes : tree.Makes host fuel τ ps.length u :=
      ⟨p, ρ', ρ, hget, htake.symm ▸ hfirst, hp, hu⟩
    exact ⟨us ++ [u], hus.trans hu,
      List.rel_append hall (.cons ⟨_, f, hget, hmakes, hf, hname⟩ .nil)⟩

/-! ### Both side by side -/

/-- The first variable is what a field is annotated with, and no other field is, and the evaluation
has made the second one for that field. -/
def Source.SameField (tree : Source) (host : Host) (fuel : Nat) (τ : Store) (v u : Variable) :
    Prop :=
  ∃ k, tree.fieldVariable? k = some v ∧ (∀ j, tree.fieldVariable? j = some v → j = k) ∧
    tree.Makes host fuel τ k u

/-- The tables of the check have the variables `V` and those of the evaluation `W`: both have
declared the same fields, inside the scope of the same host. -/
structure Source.Facing (tree : Source) (host : Host) (fuel : Nat) (σ τ : Store)
    (V W : TableId → List Variable) : Prop where
  own : List.Forall₂ (fun v u => tree.SameField host fuel τ v u ∧ u.name = v.name)
    (V (host.checker σ).1.scope.top) (W (host.evaluator τ).1.scope.top)
  checked : ∀ id ∈ host.tables, V id = σ.vars id
  evaluated : ∀ id ∈ host.tables, W id = σ.vars id

theorem Source.fieldVariable?_eq {tree : Source} {vs : List Variable}
    (h : List.Forall₂ FieldPlace.Has tree.fields vs) (k : Nat) :
    tree.fieldVariable? k = vs[k]? := by
  unfold fieldVariable?
  generalize tree.fields = ps at h
  induction h generalizing k with
  | nil => rfl
  | cons hp _ ih =>
    cases k with
    | zero =>
      obtain ⟨f, hf, hbound, -⟩ := hp
      simp [hf, hbound]
    | succ k => simpa using ih k

/-- When the check has come to a field and the evaluation too, both have declared those before. -/
theorem Host.Presents.facing {s tree : Source} {ps ps' after : List FieldPlace}
    {σ₁ σ' ρ : Store} (h : host.Presents σ τ)
    (hall : InOrder (host.checker σ).1.FieldTyped (host.checker σ).2 s.fields tree.fields σ₁)
    (he : tree.fields = ps' ++ after)
    (hcheck : InOrder (host.checker σ).1.FieldTyped (host.checker σ).2 ps ps' σ')
    (hrun : ps'.forM ((host.evaluator τ).1.declareFieldPlace fuel) (host.evaluator τ).2
      = .ok () ρ) : tree.Facing host fuel σ τ σ'.vars ρ.vars := by
  have hnew := host.checker_spec σ
  have hnew' := host.evaluator_spec τ
  have hnil : (((host.checker σ).2.vars (host.checker σ).1.scope.top).map Variable.name).Nodup :=
    hnew.vars_top ▸ List.nodup_nil
  obtain ⟨all, hdecl, hhas, hnodup⟩ := hall.fields_declare hnew.top hnil
  rw [hdecl.own, hnew.vars_top, List.nil_append] at hnodup
  obtain ⟨vs, hvs, hhas', -⟩ := hcheck.fields_declare hnew.top hnil
  have hfield : ∀ p ∈ ps', ∃ f, p.field? = some f := by
    intro p hp
    obtain ⟨v, -, f, hf, -⟩ := exists_right_of_forall₂ hhas' hp
    exact ⟨f, hf⟩
  obtain ⟨us, hus, hmakes⟩ := tree.makes_fields he hfield hrun
  refine ⟨?_, fun id hid => ?_, fun id hid => ?_⟩
  · rw [hvs.own, hus.own, hnew.vars_top, hnew'.vars_top]
    refine (forall₂_through hhas' hmakes).imp ?_
    rintro v u ⟨p, -, ⟨f, hf, hbound, hname⟩, k, f', hk, hmade, hf', hname'⟩
    cases hf.symm.trans hf'
    have hvar : tree.fieldVariable? k = some v := by
      rw [Source.fieldVariable?, hk, Option.bind_some, hf, Option.bind_some, hbound]
    refine ⟨⟨k, hvar, fun j hj => ?_, hmade⟩, hname'.trans hname⟩
    rw [Source.fieldVariable?_eq hhas] at hvar hj
    obtain ⟨hlt, -⟩ := List.getElem?_eq_some_iff.mp hj
    exact (List.getElem?_inj hlt (hnodup.of_map _)).mp (hj.trans hvar.symm)
  · rw [hvs.other fun heq => hnew.fresh (heq ▸ h.checked id hid), hnew.vars]
  · rw [hus.other fun heq => hnew'.fresh (heq ▸ h.evaluated id hid), hnew'.vars, h.vars id hid]

/-- **A name in both scopes.** What it means to the check is the variable of a field, and then the
evaluation finds the one that it has made for that field, or a variable of the host, and then the
evaluation finds that one. -/
theorem Source.Facing.scopeVariable {tree : Source} {σ' ρ : Store} {name : Name} {s : Slot}
    (h : tree.Facing host fuel σ τ σ'.vars ρ.vars)
    (hs : σ'.scopeVariable (host.checker σ).1.scope name = .ok s) :
    ∃ r, ρ.scopeVariable (host.evaluator τ).1.scope name = .ok r ∧
      (tree.SameField host fuel τ s.var r.var ∨ Twins host.tables σ' ρ name s r) := by
  have houter : ∀ id ∈ host.tables, ρ.vars id = σ'.vars id := fun id hid =>
    (h.evaluated id hid).trans (h.checked id hid).symm
  have hs' := σ'.scopeVariable_ok.mp hs
  rw [Scope.tables, (host.checker_spec σ).outer] at hs'
  obtain ⟨r, hr, hrel⟩ := Store.exists_related h.own (fun hvu => hvu.2) houter hs'
  refine ⟨r, ρ.scopeVariable_ok.mpr ?_, hrel.imp_left And.left⟩
  rw [Scope.tables, (host.evaluator_spec τ).outer]
  exact hr

/-! ### A check and then a run -/

/-- The check of an accepted source leaves the scope of the host as it is, so that the source can
be evaluated there. -/
theorem Source.analyze_presents {s : Source} (h : (s.analyze host σ).verdict = .ok ())
    (hσ : σ.Sound) (hhost : ∀ id ∈ host.tables, σ.HasTable id) :
    host.Presents σ (s.analyze host σ).store := by
  obtain ⟨σ₁, σ₂, record, htyped, hstore⟩ := Pass.check_typed h
  have hnew := host.checker_spec σ
  have hfields : InOrder (host.checker σ).1.FieldTyped (host.checker σ).2 s.fields
      (s.analyze host σ).tree.fields σ₁ := htyped.fields
  obtain ⟨vs, hvs, -⟩ := hfields.fields_declare hnew.top (hnew.vars_top ▸ List.nodup_nil)
  have hvars : (s.analyze host σ).store.vars = σ₁.vars := by
    rw [show (s.analyze host σ).store = σ₂.report record from hstore]
    exact htyped.methods.methods_vars
  refine ⟨hhost, (analyze_provides h hσ hhost).1.evaluated, fun id hid => ?_⟩
  rw [hvars, hvs.other fun heq => hnew.fresh (heq ▸ hhost id hid), hnew.vars]

end Parlance
