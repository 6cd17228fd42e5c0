/-
Checks and evaluations of rooted stores.

Neither a check nor an evaluation brings anything into a store that refers to what is not there:
what is declared lives in the table of a pass, and the values that there are come from the store,
from literals or from operators.  So a host may go on with the store that either has left.
-/
import Parlance.Proofs.Beside.Running
import Parlance.Proofs.Checking.Confined
import Parlance.Proofs.Closed.Program

namespace Parlance

variable {σ τ : Store} {host : Host} {s : Source}

/-! ### Checks -/

/-- A check with a new pass leaves all that was there. -/
theorem Source.analyze_continues (s : Source) (host : Host) (σ : Store) :
    σ.Continues (s.analyze host σ).store := by
  obtain ⟨_, _, _, _, -, -, -, -, hgains, -⟩ := s.confined (host.checker_spec σ).top
  refine ⟨s.analyze_keeps host σ, fun r hr => ?_, ?_, ?_, ?_⟩
  · rw [Store.registry, s.registries_analyze]
    exact σ.registry_newPass _ _ _ hr
  · rw [s.registries_analyze]
    exact σ.size_registries_newPass _ _ _
  · exact hgains.output.trans (σ.stream_newPass _ _ _).1
  · exact hgains.encoding.trans (σ.stream_newPass _ _ _).2

/-- Variables without values and functions without anything to do are added. -/
theorem Store.Gains.rooted {top : TableId} {ss : List Slot} {rs : List Routine}
    (h : σ.Gains top ss rs τ) (hσ : σ.Rooted) (htop : σ.HasTable top)
    (hss : ∀ s ∈ ss, s.var.home = .table top ∧ s.value = .nil)
    (hrs : ∀ r ∈ rs, r.implementation? = none) : τ.Rooted := by
  have hsize : σ.NoLarger τ := ⟨Nat.le_of_eq h.size.symm, h.registries ▸ Nat.le_refl _⟩
  refine ⟨fun id => ?_, fun r t ht => ?_⟩
  · by_cases hid : id = top
    · rw [hid, h.own]
      have hold := (hσ.tables top).mono hsize
      refine ⟨List.forall_mem_append.mpr ⟨hold.slots, fun s hs => ⟨fun id hid => ?_, ?_⟩⟩,
        List.forall_mem_append.mpr ⟨hold.routines, fun r hr => ?_⟩⟩
      · cases (hss s hs).1.symm.trans hid
        exact hsize.hasTable htop
      · rw [(hss s hs).2]
        exact nofun
      · refine Routine.rooted_of_plain (fun action traced => ?_) fun m p => ?_
        · exact hrs r hr ▸ nofun
        · exact hrs r hr ▸ nofun
    · rw [h.other id hid]
      exact (hσ.tables id).mono hsize
  · rw [Store.registry, h.registries] at ht
    exact hsize.hasTable (hσ.types r t ht)

/-- A check leaves a rooted store, whether it passes or not. -/
theorem Source.rooted_analyze (s : Source) (hσ : σ.Rooted) (hhost : host.Rooted σ) :
    (s.analyze host σ).store.Rooted ∧ host.Rooted (s.analyze host σ).store := by
  have htop := (host.checker_spec σ).top
  obtain ⟨_, _, _, _, -, -, hss, hrs, hgains, -⟩ := s.confined htop
  have hpass := (hσ.newPass hhost (show ∀ i ∈ (none : Option Implementation), _ from nofun)).1
  have hcontinues := s.analyze_continues host σ
  refine ⟨hgains.rooted hpass htop (fun x hx => ⟨hss.home x hx, hss.value x hx⟩) hrs.implementation,
    hhost.mono ⟨hcontinues.keeps.size, hcontinues.moreRegistries⟩⟩

/-! ### Evaluations -/

/-- Variables and functions are added that are rooted, and all values are. -/
theorem Store.Adds.rooted {top : TableId} {vs : List Variable} {rs : List Routine}
    (h : σ.Adds top vs rs τ) (hσ : σ.Rooted) (htop : σ.HasTable top)
    (hvs : ∀ v ∈ vs, v.home = .table top) (hrs : ∀ r ∈ rs, r.Rooted σ)
    (hvalues : ∀ id, ∀ s ∈ (τ.table id).slots, s.value.Rooted σ) : τ.Rooted := by
  have hsize : σ.NoLarger τ := ⟨Nat.le_of_eq h.functions.size.symm, h.registries ▸ Nat.le_refl _⟩
  have old {id : TableId} {v : Variable} (hv : v ∈ σ.vars id) :
      ∀ home, v.home = .table home → τ.HasTable home := by
    obtain ⟨s, hs, rfl⟩ := List.mem_map.mp hv
    exact fun home hhome => hsize.hasTable (((hσ.tables id).slots s hs).home home hhome)
  refine ⟨fun id => ⟨fun s hs => ⟨?_, fun o ho => hsize.hasTable (hvalues id s hs o ho)⟩,
    fun r hr => ?_⟩, fun r t ht => ?_⟩
  · have hv : s.var ∈ τ.vars id := List.mem_map_of_mem hs
    by_cases hid : id = top
    · rw [hid, h.vars.own] at hv
      rcases List.mem_append.mp hv with hv | hv
      · exact old hv
      · intro home hhome
        cases (hvs _ hv).symm.trans hhome
        exact hsize.hasTable htop
    · rw [h.vars.other hid] at hv
      exact old hv
  · by_cases hid : id = top
    · rw [hid, h.functions.own] at hr
      rcases List.mem_append.mp hr with hr | hr
      · exact ((hσ.tables top).routines r hr).mono hsize
      · exact (hrs r hr).mono hsize
    · rw [h.functions.other id hid] at hr
      exact ((hσ.tables id).routines r hr).mono hsize
  · rw [Store.registry, h.registries] at ht
    exact hsize.hasTable (hσ.types r t ht)

theorem Store.Continues.refl (σ : Store) : σ.Continues σ :=
  ⟨.refl σ, fun _ _ => rfl, Nat.le_refl _, rfl, rfl⟩

/-- The values that an evaluation leaves are rooted: a run that goes together with itself only comes
by values that are. -/
theorem Pass.rooted_values {pass : Pass} (hσ : σ.Rooted) (hpass : pass.Rooted σ)
    (hs : s.ObjectFree) (fuel : Nat) (id : TableId) :
    ∀ x ∈ (((pass.evaluate fuel s).after σ).table id).slots, x.value.Rooted σ := by
  have hfits := hs.fits (k := (Beside.Gap.between σ σ).relocation.code)
    fun v hv o ho => (hv o ho).elim
  have together : (Beside.Gap.between σ σ).relocation.pairing.Together _
      (pass.evaluate fuel s) (pass.evaluate fuel s) :=
    (Relocation.pairing_lawful _).evaluate (Beside.Gap.passes_same hpass)
      (Source.alike_refl (Relocation.code_reflexive _) (fun _ => rfl) hfits)
  have hresults := together (Beside.held_between hσ (.refl σ)).stores
  have hid : (Beside.Gap.between σ σ).relocation.tables id id := by
    change shift _ (σ.tables.size - σ.tables.size) id = id
    rw [Nat.sub_self]
    exact ite_self _
  have values {ρ : Store} (hρ : (Beside.Gap.between σ σ).relocation.Stores ρ ρ) :
      ∀ x ∈ (ρ.table id).slots, x.value.Rooted σ :=
    fun x hx => (List.forall₂_same.mp (hρ.slots hid) x hx).sort
  rw [Eval.after]
  generalize pass.evaluate fuel s σ = r at hresults
  cases hresults with
  | ok _ hρ => exact values hρ
  | fault _ hρ => exact values hρ
  | outOfFuel hρ => exact values hρ
  | excused h => exact (Relocation.not_narrows (fun he => he) h.2).elim

/-- The function of a method is rooted, if the method has no objects as literals. -/
theorem Pass.rooted_methodRoutine {pass : Pass} {τ : Store} (hpass : pass.Rooted τ)
    (hs : s.ObjectFree) {p : MethodPlace} (hp : p ∈ s.methods) {r : Routine}
    (hr : pass.methodRoutine? p = some r) : r.Rooted τ := by
  obtain ⟨m, hm, rfl⟩ := Option.map_eq_some_iff.mp hr
  refine ⟨nofun, ?_, ?_⟩
  · rintro m' p' ⟨⟩
    exact hpass
  · rintro m' p' ⟨⟩ v t hn o rfl
    refine (hs.nodes o t (List.mem_cons_of_mem _ (List.mem_append_right _ ?_))).elim
    refine List.mem_flatMap.mpr ⟨p, hp, ?_⟩
    rw [MethodPlace.walk_of_method? hm]
    exact List.mem_cons_of_mem _ hn

/-- **An evaluation leaves a rooted store**, however it ends. -/
theorem Source.rooted_evaluate (hs : s.ObjectFree) (hσ : σ.Rooted) (hhost : host.Rooted σ)
    (fuel : Nat) : ((s.evaluate host fuel).after σ).Rooted := by
  have hprint : ∀ i ∈ some Implementation.print, i = .print := by
    rintro i ⟨⟩
    rfl
  obtain ⟨hstore, hpass⟩ := hσ.newPass hhost hprint
  have htop := (host.evaluator_spec σ).top
  obtain ⟨fields, methods, -, hmethods, -, -, hadds⟩ := evaluate_adds _ fuel s htop
  refine hadds.rooted hstore htop (fun v hv => ?_) (fun r hr => ?_)
    (Pass.rooted_values hstore hpass hs fuel)
  · obtain ⟨p, -, hp⟩ := List.mem_filterMap.mp hv
    obtain ⟨name, -, rfl⟩ := Option.map_eq_some_iff.mp hp
    rfl
  · obtain ⟨p, hp, hr⟩ := List.mem_filterMap.mp hr
    exact Pass.rooted_methodRoutine hpass hs (hmethods.subset hp) hr

end Parlance
