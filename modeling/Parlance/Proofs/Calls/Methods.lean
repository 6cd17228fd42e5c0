/-
The functions that a source declares.

Both passes bind `print` and then the methods of the source, each in a table of its own.  The
check binds a method and looks at its body before it goes on to the next; the evaluation
binds all of them before any body runs.  So where a body is checked the check has bound the
first few of the functions that the evaluation has bound when the body runs, in the same
order and under the same keys.
-/
import Parlance.Proofs.Checking.Source
import Parlance.Proofs.Running.Added
import Parlance.Proofs.Running.Stable

namespace Parlance

open Store (AddsFunctions)

/-- The method has the name and the number of parameters that the function is found by. -/
def Method.HasKey (m : Method) (f : Function) : Prop :=
  f.name = m.name ∧ f.arity = m.parameters.length

/-- A method stands in that place and is annotated with the function, which is one of the
table `top`. -/
def MethodPlace.Binds (top : TableId) (p : MethodPlace) (f : Function) : Prop :=
  ∃ m, p = .method m ∧ m.bound = some f ∧ m.HasKey f ∧ f.home = top

/-- A method stands in that place, and the function runs it. -/
def MethodPlace.Runs (pass : Pass) (p : MethodPlace) (r : Routine) : Prop :=
  ∃ m, p.method? = some m ∧ r.implementation? = some (.method m pass) ∧ m.HasKey r.function

variable {pass : Pass} {σ τ : Store}

/-! ### The check -/

theorem Pass.AddsField.same {p : FieldPlace} {v : Variable} (h : pass.AddsField σ p v τ) :
    σ.SameFunctions τ :=
  h.store ▸ .modifyTable σ _ fun _ => rfl

/-- The check of fields changes no function. -/
theorem InOrder.fields_same {ps ps' : List FieldPlace} (h : InOrder pass.FieldTyped σ ps ps' τ) :
    σ.SameFunctions τ := by
  refine h.preserves (P := σ.SameFunctions) (fun hf hσ => ?_) (.refl σ)
  obtain ⟨v, hv⟩ := hf.adds
  exact hσ.trans hv.same

theorem Pass.AddsMethod.functions {m : Method} {f : Function} (h : pass.AddsMethod σ m f τ)
    (htop : σ.HasTable pass.scope.top) : AddsFunctions pass.scope.top σ τ [⟨f, none⟩] := by
  obtain ⟨record, rfl⟩ := h.store
  have hadd := AddsFunctions.addRoutine htop ⟨f, none⟩
  exact ⟨hadd.size, hadd.other, hadd.own⟩

theorem Pass.AddsMethod.binds {m : Method} {f : Function} (h : pass.AddsMethod σ m f τ) :
    (MethodPlace.method m).Binds pass.scope.top f :=
  ⟨m, rfl, h.bound, ⟨h.name, h.arity⟩, h.home⟩

/-- The check of methods adds one function for each of them. -/
theorem InOrder.methods_functions {ps ps' : List MethodPlace}
    (h : InOrder pass.MethodTyped σ ps ps' τ) (htop : σ.HasTable pass.scope.top) :
    ∃ fs : List Function, AddsFunctions pass.scope.top σ τ (fs.map (⟨·, none⟩)) ∧
      List.Forall₂ (MethodPlace.Binds pass.scope.top) ps' fs := by
  induction h with
  | nil => exact ⟨[], .of_same (.refl _), .nil⟩
  | cons hp _ ih =>
    obtain ⟨m, f, rfl, hm⟩ := hp.adds
    have hadd := hm.functions htop
    obtain ⟨fs, hfs, hbinds⟩ := ih (hadd.hasTable htop)
    exact ⟨f :: fs, hadd.trans hfs, .cons hm.binds hbinds⟩

/-- A source that passes the check has a method in each place for one. -/
theorem InOrder.exists_method {ps ps' : List MethodPlace}
    (h : InOrder pass.MethodTyped σ ps ps' τ) {p : MethodPlace} (hp : p ∈ ps') :
    ∃ m, p = .method m := by
  obtain ⟨before, after, he⟩ := List.append_of_mem hp
  obtain ⟨_, _, _, _, _, _, hm, _⟩ := h.split he
  obtain ⟨m, _, rfl, _⟩ := hm.adds
  exact ⟨m, rfl⟩

/-! ### The evaluation -/

theorem Pass.method_of_declareMethodPlace {p : MethodPlace}
    (h : pass.declareMethodPlace p σ = .ok () τ) : ∃ m, p.method? = some m := by
  cases p with
  | hole g => cases h
  | _ m => exact ⟨m, rfl⟩

theorem Pass.declareMethodPlace_functions {p : MethodPlace}
    (h : pass.declareMethodPlace p σ = .ok () τ) (htop : σ.HasTable pass.scope.top) :
    ∃ r, AddsFunctions pass.scope.top σ τ [r] ∧ p.Runs pass r := by
  obtain ⟨m, hm⟩ := method_of_declareMethodPlace h
  have hadds := (binds_declareMethodPlace pass p htop h).functions
  rw [methodRoutine?, hm] at hadds
  exact ⟨pass.ownRoutine m, hadds, m, hm, rfl, rfl, List.length_replicate⟩

/-- Declaring methods adds one function for each of them, which runs it. -/
theorem Pass.declareMethods_functions {ps : List MethodPlace}
    (h : ps.forM pass.declareMethodPlace σ = .ok () τ) (htop : σ.HasTable pass.scope.top) :
    ∃ rs, AddsFunctions pass.scope.top σ τ rs ∧ List.Forall₂ (MethodPlace.Runs pass) ps rs := by
  induction ps generalizing σ with
  | nil =>
    cases h
    exact ⟨[], .of_same (.refl _), .nil⟩
  | cons p ps ih =>
    obtain ⟨u, ρ, hp, hps⟩ := Eval.bind_ok.mp h
    obtain ⟨r, hadd, hr⟩ := declareMethodPlace_functions hp htop
    obtain ⟨rs, hrs, hruns⟩ := ih hps (hadd.hasTable htop)
    exact ⟨r :: rs, hadd.trans hrs, .cons hr hruns⟩

end Parlance
