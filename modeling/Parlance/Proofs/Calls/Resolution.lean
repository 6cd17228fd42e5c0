/-
Names in the scope of a host.

The check and the evaluation work in scopes of their own inside that of the host, and find a
function in their own table first and then in the tables of the host.  Where both have bound
the same methods they find the same; where the evaluation has bound more, one of those may
have the key of a function of the host, and then it hides that function.
-/
import Parlance.Program
import Parlance.Proofs.Calls.Methods
import Parlance.Proofs.Store.Sound

namespace Parlance

open Store (AddsFunctions Counterpart)

/-- The tables of the scope that the host gives. -/
def Host.tables (host : Host) : List TableId :=
  (host.parent.map Scope.tables).getD []

/-- The scope of the host is there in both stores, and has the same functions in them. -/
structure Host.Provides (host : Host) (σ τ : Store) : Prop where
  checked : ∀ id ∈ host.tables, σ.HasTable id
  evaluated : ∀ id ∈ host.tables, τ.HasTable id
  functions : ∀ id ∈ host.tables, (τ.table id).routines = (σ.table id).routines

/-! ### What a call may come to -/

/-- The methods that come later in the source than what is running: those after the method, and
none for the value of a field, which is evaluated before there are any. -/
inductive Source.Later (tree : Source) : Option Method → List MethodPlace → Prop
  | field : Later tree none []
  | method {before after : List MethodPlace} {m : Method}
      (h : tree.methods = before ++ .method m :: after) : Later tree (some m) after

/-- A call that is annotated with `f` comes to call `r`, as it should: the `print` of the pass, the
method of the source that is annotated with `f`, or the very function of the host. -/
inductive Source.Agrees (tree : Source) (host : Host) (checker evaluator : Pass) (τ : Store)
    (f : Function) (r : Routine) : Prop
  | print (hf : f = printer checker.scope.top)
      (hr : r = ⟨printer evaluator.scope.top, some .print⟩)
  | method (hh : f.home = checker.scope.top) {m : Method} (hm : .method m ∈ tree.methods)
      (hf : m.bound = some f) (hk : m.HasKey f)
      (hr : r.implementation? = some (.method m evaluator))
  | host (hh : f.home ∈ host.tables) (hf : r.function = f) (hr : r ∈ (τ.table f.home).routines)

/-- A call that is annotated with the function `f` of the host comes to call `r`, which runs
a later method with the same key. -/
structure Source.Hides (host : Host) (evaluator : Pass) (later : List MethodPlace) (f : Function)
    (r : Routine) : Prop where
  home : f.home ∈ host.tables
  method : ∃ m, .method m ∈ later ∧ m.HasKey f ∧ r.implementation? = some (.method m evaluator)

/-! ### Both scopes side by side -/

/-- The two functions are both `print`, or a method that stands in one of the places: annotated
with the first, run by the second. -/
def MethodPlace.Related (checker evaluator : Pass) (places : List MethodPlace) (a b : Routine) :
    Prop :=
  a = ⟨printer checker.scope.top, none⟩ ∧ b = ⟨printer evaluator.scope.top, some .print⟩ ∨
    ∃ p ∈ places, p.Binds checker.scope.top a.function ∧ p.Runs evaluator b

theorem MethodPlace.Related.key {checker evaluator : Pass} {places : List MethodPlace}
    {a b : Routine} (h : Related checker evaluator places a b) :
    b.function.name = a.function.name ∧ b.function.arity = a.function.arity := by
  rcases h with ⟨rfl, rfl⟩ | ⟨p, -, ⟨m, rfl, -, hf, -⟩, ⟨m', hm', -, hr⟩⟩
  · exact ⟨rfl, rfl⟩
  · cases hm'
    exact ⟨hr.1.trans hf.1.symm, hr.2.trans hf.2.symm⟩

section Passes

variable {host : Host} {σ τ σ' ρ : Store}

theorem Host.checker_spec (host : Host) (σ : Store) :
    Store.NewPass σ host.parent .none (host.checker σ).1 (host.checker σ).2 :=
  σ.newPass_spec host.parent host.registry .none

theorem Host.evaluator_spec (host : Host) (τ : Store) :
    Store.NewPass τ host.parent (some .print) (host.evaluator τ).1 (host.evaluator τ).2 :=
  τ.newPass_spec host.parent host.registry (some .print)

/-- The functions of the host are the same wherever the check has come to and wherever the
evaluation has. -/
theorem Host.Provides.outer {added added' : List Routine} (h : host.Provides σ τ)
    (hcheck : AddsFunctions (host.checker σ).1.scope.top (host.checker σ).2 σ' added)
    (hrun : AddsFunctions (host.evaluator τ).1.scope.top (host.evaluator τ).2 ρ added')
    {id : TableId} (hid : id ∈ host.tables) :
    (σ'.table id).routines = (τ.table id).routines ∧
      (ρ.table id).routines = (τ.table id).routines := by
  have hnew := host.checker_spec σ
  have hnew' := host.evaluator_spec τ
  have hne : id ≠ (host.checker σ).1.scope.top := fun he => hnew.fresh (he ▸ h.checked id hid)
  have hne' : id ≠ (host.evaluator τ).1.scope.top := fun he =>
    hnew'.fresh (he ▸ h.evaluated id hid)
  refine ⟨?_, ?_⟩
  · rw [hcheck.other id hne, h.functions id hid]
    exact congrArg _ (hnew.other id hne)
  · rw [hrun.other id hne']
    exact congrArg _ (hnew'.other id hne')

/-- What a name and a number of arguments mean to the check, once it has bound the methods in some
places, and to the evaluation, which has bound these and later ones. -/
theorem Host.Provides.counterpart {places : List MethodPlace} {fs : List Function}
    {rs later : List Routine} {name : Name} {arity : Nat} {s : Routine} (h : host.Provides σ τ)
    (hcheck : AddsFunctions (host.checker σ).1.scope.top (host.checker σ).2 σ'
      (fs.map (⟨·, .none⟩)))
    (hrun : AddsFunctions (host.evaluator τ).1.scope.top (host.evaluator τ).2 ρ (rs ++ later))
    (hbinds : List.Forall₂ (MethodPlace.Binds (host.checker σ).1.scope.top) places fs)
    (hruns : List.Forall₂ (MethodPlace.Runs (host.evaluator τ).1) places rs)
    (hs : σ'.findFunction name arity (host.checker σ).1.scope.tables = some s) :
    ∃ r, ρ.findFunction name arity (host.evaluator τ).1.scope.tables = some r ∧
      Counterpart (MethodPlace.Related (host.checker σ).1 (host.evaluator τ).1 places) later
        host.tables σ' s r := by
  have hnew := host.checker_spec σ
  have hnew' := host.evaluator_spec τ
  have hrel : List.Forall₂ (MethodPlace.Related (host.checker σ).1 (host.evaluator τ).1 places)
      (σ'.table (host.checker σ).1.scope.top).routines
      (⟨printer (host.evaluator τ).1.scope.top, some .print⟩ :: rs) := by
    rw [hcheck.own, hnew.table]
    refine .cons (.inl ⟨rfl, rfl⟩) (List.forall₂_map_left_iff.mpr ?_)
    exact (forall₂_through hbinds hruns).imp fun _ _ hab => .inr hab
  rw [Scope.tables, hnew.outer] at hs
  rw [Scope.tables, hnew'.outer]
  refine Store.exists_counterpart hrel (fun hab => hab.key) ?_ (fun id hid => ?_) hs
  · rw [hrun.own, hnew'.table]
    rfl
  · obtain ⟨hl, hr⟩ := h.outer hcheck hrun hid
    exact hr.trans hl.symm

/-- The functions of methods that the evaluator's own table has are those that have been added to
it, since no other table of a sound store can know of that scope. -/
theorem Store.Sound.mem_of_method {added : List Routine} {f : Function} {m : Method} (hτ : τ.Sound)
    (hrun : AddsFunctions (host.evaluator τ).1.scope.top (host.evaluator τ).2 ρ added)
    (hr : ρ.HasRoutine ⟨f, some (.method m (host.evaluator τ).1)⟩) :
    ⟨f, some (.method m (host.evaluator τ).1)⟩ ∈ added := by
  have hnew := host.evaluator_spec τ
  obtain ⟨id, hmem⟩ := hr
  by_cases hid : id = (host.evaluator τ).1.scope.top
  · rw [hid, hrun.own, hnew.table] at hmem
    rcases List.mem_cons.mp hmem with he | hmem
    · cases he
    · exact hmem
  · rw [hrun.other id hid, hnew.other id hid] at hmem
    exact absurd (hτ.scope id _ hmem _ _ rfl) hnew.fresh

/-- What is bound in the table of the check belongs to no table of the host. -/
theorem Host.Provides.not_mem (h : host.Provides σ τ) :
    (host.checker σ).1.scope.top ∉ host.tables :=
  fun hmem => (host.checker_spec σ).fresh (h.checked _ hmem)

/-- A counterpart of what the check has found is the right one, or hides it. -/
theorem Host.Provides.agrees {tree : Source} {places after : List MethodPlace}
    {added added' later : List Routine} {s r : Routine} (h : host.Provides σ τ) (hτ : τ.Sound)
    (hcheck : AddsFunctions (host.checker σ).1.scope.top (host.checker σ).2 σ' added)
    (hrun : AddsFunctions (host.evaluator τ).1.scope.top (host.evaluator τ).2 ρ added')
    (hplaces : places ++ after ⊆ tree.methods)
    (hmethods : ∀ p ∈ tree.methods, ∃ m, p = .method m)
    (hlater : List.Forall₂ (MethodPlace.Runs (host.evaluator τ).1) after later)
    (hc : Counterpart (MethodPlace.Related (host.checker σ).1 (host.evaluator τ).1 places) later
      host.tables σ' s r) :
    Source.Hides host (host.evaluator τ).1 after s.function r ∨
      (s.function.home ∈ host.tables → ∀ m, .method m ∈ after → ¬m.HasKey s.function) ∧
        tree.Agrees host (host.checker σ).1 (host.evaluator τ).1 τ s.function r := by
  have bound {id : TableId} (hid : id ∈ host.tables) (hs : s ∈ (σ'.table id).routines) :
      s.function.home = id ∧ s ∈ (τ.table id).routines := by
    rw [(h.outer hcheck hrun hid).1] at hs
    exact ⟨hτ.home id s hs, hs⟩
  cases hc with
  | own hR =>
    right
    rcases hR with ⟨rfl, rfl⟩ | ⟨p, hp, ⟨m, rfl, hb, hk, hh⟩, ⟨m', hm', hr, -⟩⟩
    · exact ⟨fun hmem => absurd hmem h.not_mem, .print rfl rfl⟩
    · cases hm'
      refine ⟨fun hmem => absurd (hh ▸ hmem) h.not_mem, .method hh ?_ hb hk hr⟩
      exact hplaces (List.mem_append_left _ hp)
  | hidden hr hk hid hs =>
    left
    obtain ⟨p, hp, m, hm, hi, hkey⟩ := exists_left_of_forall₂ hlater hr
    obtain ⟨m', rfl⟩ := hmethods p (hplaces (List.mem_append_right _ hp))
    cases hm
    refine ⟨(bound hid hs).1 ▸ hid, m, hp, ⟨?_, ?_⟩, hi⟩
    · exact hk.1.symm.trans hkey.1
    · exact hk.2.symm.trans hkey.2
  | outer he hid hs hk =>
    right
    subst he
    obtain ⟨hh, hmem⟩ := bound hid hs
    refine ⟨?_, .host (hh ▸ hid) rfl (hh ▸ hmem)⟩
    intro _ m hm hkey
    obtain ⟨l, hl, m', hm', -, hkey'⟩ := exists_right_of_forall₂ hlater hm
    cases hm'
    exact hk l hl ⟨hkey'.1.trans hkey.1.symm, hkey'.2.trans hkey.2.symm⟩

/-! ### A check and then a run -/

/-- A sound store in which the check of an accepted source has begun is such a store again when
it has ended, so that the source can be evaluated there. -/
theorem Source.analyze_provides {s : Source} (h : (s.analyze host σ).verdict = .ok ())
    (hσ : σ.Sound)
    (hhost : ∀ id ∈ host.tables, σ.HasTable id) :
    host.Provides σ (s.analyze host σ).store ∧ (s.analyze host σ).store.Sound := by
  obtain ⟨σ₁, σ₂, record, htyped, hstore⟩ := Pass.check_typed h
  have hnew := host.checker_spec σ
  have hfields : AddsFunctions (host.checker σ).1.scope.top (host.checker σ).2 σ₁ [] :=
    .of_same htyped.fields.fields_same
  obtain ⟨fs, hfs, hbinds⟩ := htyped.methods.methods_functions (hfields.hasTable hnew.top)
  have hadd := hfields.trans hfs
  have hend : σ₂.SameFunctions (s.analyze host σ).store := by
    rw [show (s.analyze host σ).store = σ₂.report record from hstore]
    exact ⟨rfl, fun _ => rfl⟩
  have hnone : ∀ m pass, (none : Option Implementation) ≠ some (.method m pass) := nofun
  refine ⟨⟨hhost, ?_, ?_⟩, ?_⟩
  · intro id hid
    exact hend.hasTable (hadd.hasTable (hnew.keeps.hasTable (hhost id hid)))
  · intro id hid
    rw [hend.routines, hadd.other id fun he => hnew.fresh (he ▸ hhost id hid)]
    exact congrArg _ (hnew.keeps.table id (hhost id hid))
  · refine Store.Sound.of_same ?_ hend
    refine Store.Sound.adds (hσ.newPass hnone) hadd ?_ ?_
    · intro r hr
      obtain ⟨f, hf, rfl⟩ := List.mem_map.mp hr
      obtain ⟨p, -, m, -, -, -, hhome⟩ := exists_left_of_forall₂ hbinds hf
      exact hhome
    · intro r hr m pass hm
      obtain ⟨f, hf, rfl⟩ := List.mem_map.mp hr
      cases hm

end Passes

end Parlance
