/-
Programs that terminate.

The evaluation binds all methods before it calls one, so nothing about it keeps methods from calling
each other for ever.  The check does: it accepts calls of what has been declared before only, and of
the calling method itself.  Where no method calls itself, each of them halts because those before it
do.
-/
import Mathlib.Data.List.Induction
import Parlance.Program
import Parlance.Proofs.Checking.Confined
import Parlance.Proofs.Terminating.Running

namespace Parlance

open Eval
open Store (AddsFunctions)

/-! ### Hosts that provide values only -/

/-- The host provides variables only, in its scopes and as members of types, and none of them holds
an object. -/
structure Host.Calm (host : Host) (σ : Store) : Prop where
  tables : ∀ id ∈ host.tables, σ.HasTable id ∧ (σ.table id).Calm
  members : ∀ id ∈ host.registry, ∀ t ∈ σ.registry id,
    σ.HasTable t.members ∧ (σ.table t.members).Calm

theorem Table.calm_empty : Table.empty.Calm :=
  ⟨rfl, List.forall_mem_nil _⟩

variable {host : Host} {σ : Store}

/-- A fresh registry is one whose types have no members at all. -/
theorem Host.Calm.of_fresh (htables : ∀ id ∈ host.tables, σ.HasTable id ∧ (σ.table id).Calm)
    (hregistry : ∀ id ∈ host.registry, σ.FreshRegistry id) : host.Calm σ where
  tables := htables
  members id hid t ht := by
    obtain ⟨htable, hempty⟩ := (hregistry id hid).members t ht
    exact ⟨htable, hempty ▸ Table.calm_empty⟩

/-- Nothing at all is calm. -/
theorem Host.calm_none (σ : Store) : Host.none.Calm σ := by
  refine .of_fresh (List.forall_mem_nil _) ?_
  intro id hid
  cases hid

/-- A new pass that evaluates begins in a calm store. -/
theorem Host.Calm.evaluator (h : host.Calm σ) :
    (host.evaluator σ).1.Calm (host.evaluator σ).2 (host.evaluator σ).2 := by
  have hnew := host.evaluator_spec σ
  have kept {id : TableId} (hid : σ.HasTable id ∧ (σ.table id).Calm) :
      id ≠ (host.evaluator σ).1.scope.top ∧ ((host.evaluator σ).2.table id).Calm := by
    refine ⟨fun he => hnew.fresh (he ▸ hid.1), ?_⟩
    rw [hnew.keeps.table id hid.1]
    exact hid.2
  refine ⟨.refl _, rfl, fun id hid => ?_, fun t ht => ?_, ?_⟩
  · rw [hnew.outer] at hid
    exact kept (h.tables id hid)
  · rcases hr : host.registry with _ | id
    · rw [Host.evaluator, hr] at ht ⊢
      obtain ⟨hfresh, hne⟩ := σ.newPass_registry host.parent (some .print)
      exact ⟨hne t ht, (hfresh.members t ht).2 ▸ Table.calm_empty⟩
    · have hregistry : (host.evaluator σ).2.registry (host.evaluator σ).1.registry
          = σ.registry id := by
        rw [Host.evaluator, hr]
        rfl
      exact kept (h.members id hr t (hregistry ▸ ht))
  · rw [hnew.table]
    exact List.forall_mem_nil _

/-- A check leaves the host as calm as it was. -/
theorem Host.Calm.analyze (h : host.Calm σ) (s : Source) : host.Calm (s.analyze host σ).store := by
  have hkeeps := s.analyze_keeps host σ
  have kept {id : TableId} (hid : σ.HasTable id ∧ (σ.table id).Calm) :
      (s.analyze host σ).store.HasTable id ∧ ((s.analyze host σ).store.table id).Calm :=
    ⟨hkeeps.hasTable hid.1, (hkeeps.table id hid.1).symm ▸ hid.2⟩
  refine ⟨fun id hid => kept (h.tables id hid), fun id hid t ht => kept (h.members id hid t ?_)⟩
  rw [Store.registry, s.registries_analyze, Host.checker, hid] at ht
  exact ht

/-! ### Methods -/

section Methods

variable {pass : Pass} {ρ : Store} {before : List MethodPlace} {rs later : List Routine}

/-- Where the first functions of a table have these keys, one of them is what a key finds. -/
theorem mem_of_find_append {r : Routine} {n : Name} {count : Nat}
    (hkey : (n, count) ∈ rs.map Routine.key)
    (hr : ((rs ++ later).find? fun r => r.function.name == n && r.function.arity == count)
      = some r) : r ∈ rs := by
  obtain ⟨r', hr', he⟩ := List.mem_map.mp hkey
  cases he
  rw [List.find?_append] at hr
  cases hfirst : rs.find? fun r =>
      r.function.name == r'.function.name && r.function.arity == r'.function.arity with
  | some a =>
    rw [hfirst] at hr
    cases hr
    exact List.mem_of_find?_eq_some hfirst
  | none => simpa using List.find?_eq_none.mp hfirst r' hr'

theorem keys_eq (hruns : List.Forall₂ (MethodPlace.Runs pass) before rs) :
    keys before = (⟨printer pass.scope.top, some .print⟩ :: rs).map Routine.key := by
  rw [keys, List.map_cons]
  refine congrArg (printerKey :: ·) ?_
  induction hruns with
  | nil => rfl
  | @cons p r ps rs hp _ ih =>
    obtain ⟨m, hm, -, hname, harity⟩ := hp
    rw [List.filterMap_cons, MethodPlace.key?, hm, List.map_cons, ← ih, Routine.key, hname, harity]
    rfl

/-- The pass knows the first of its own functions, if these halt. -/
theorem Pass.Calm.knows (hρ : pass.Calm ρ ρ)
    (hown : (ρ.table pass.scope.top).routines
      = (⟨printer pass.scope.top, some .print⟩ :: rs) ++ later)
    (hruns : List.Forall₂ (MethodPlace.Runs pass) before rs)
    (hhalts : ∀ r ∈ rs, r.Halts pass ρ) : pass.Knows ρ (keys before) := by
  intro n count r hkey hr
  rw [keys_eq hruns] at hkey
  obtain ⟨id, hid, hfound⟩ := List.exists_of_findSome?_eq_some hr
  rcases List.mem_cons.mp hid with rfl | hid
  · rw [Table.routine?, hown] at hfound
    rcases List.mem_cons.mp (mem_of_find_append hkey hfound) with rfl | hmem
    · exact halts_print rfl
    · exact hhalts r hmem
  · have hmem := (Table.mem_of_routine? hfound).1
    rw [(hρ.outer id hid).2.routines] at hmem
    cases hmem

/-- **Every method halts**, since those before it do. -/
theorem Source.Descends.halts {s : Source} (hs : s.Descends) (hρ : pass.Calm ρ ρ)
    (hdeclared : ∀ before after, s.methods = before ++ after → ∃ rs later,
      (ρ.table pass.scope.top).routines
        = (⟨printer pass.scope.top, some .print⟩ :: rs) ++ later ∧
      List.Forall₂ (MethodPlace.Runs pass) before rs)
    (before after : List MethodPlace) (h : s.methods = before ++ after) :
    ∀ p ∈ before, ∀ r, p.Runs pass r → r.Halts pass ρ := by
  induction before using List.reverseRecOn generalizing after with
  | nil => exact List.forall_mem_nil _
  | append_singleton before p ih =>
    have he : s.methods = before ++ p :: after := by rw [h, List.append_assoc]; rfl
    have hbefore := ih (p :: after) he
    refine List.forall_mem_append.mpr ⟨hbefore, List.forall_mem_singleton.mpr ?_⟩
    rintro r ⟨m, hm, hr, -⟩
    obtain ⟨rs, later, hown, hruns⟩ := hdeclared before (p :: after) he
    have hknows : pass.Knows ρ (keys before) := by
      refine hρ.knows hown hruns fun r' hr' => ?_
      obtain ⟨q, hq, hrun⟩ := exists_left_of_forall₂ hruns hr'
      exact hbefore q hq r' hrun
    refine halts_method hknows hr fun n hn => (hs.methods before p after he).2 n ?_
    rw [MethodPlace.walk_of_method? hm]
    exact List.mem_cons_of_mem _ hn

end Methods

/-! ### Declarations -/

section Declarations

variable {pass : Pass} {ρ : Store}

theorem halts_declareFieldPlace (hk : pass.Knows ρ (keys [])) {p : FieldPlace}
    (hfield : p.field?.isSome) (hp : ∀ n ∈ p.walk, n.Descends (keys [])) (hσ : pass.Calm ρ σ) :
    Eval.Halts (fun _ τ => pass.Calm ρ τ) (fun fuel => pass.declareFieldPlace fuel p) σ := by
  obtain ⟨f, hf⟩ := Option.isSome_iff_exists.mp hfield
  rw [FieldPlace.walk_of_field? hf] at hp
  have hvalue : Eval.Halts (pass.Leaves ρ Value.Hostless)
      (fun fuel => pass.initialValue fuel f.value) σ := by
    cases he : f.value with
    | none => exact halts_pure ⟨fun _ h => Value.noConfusion h, hσ⟩
    | some e =>
      rw [he] at hp
      exact e.halts hk (fun n hn => hp n (List.mem_cons_of_mem _ hn)) (List.forall_mem_nil _) hσ
  have hdeclare : Eval.Halts (fun _ τ => pass.Calm ρ τ) (fun fuel => pass.declareField fuel f) σ :=
    hvalue.bind fun v τ hv => (halts_declare f.name (List.forall_mem_nil _) hv.1 hv.2).bind
      fun _ υ hυ => halts_pure hυ.2
  cases p with
  | field f' | declaration f' =>
    cases hf
    exact hdeclare
  | hole g => cases hf

theorem halts_declareMethodPlace (p : MethodPlace) (hσ : pass.Calm σ σ) :
    Eval.Halts (fun _ τ => pass.Calm τ τ) (fun _ => pass.declareMethodPlace p) σ := by
  have hdeclare (m : Method) :
      Eval.Halts (fun _ τ => pass.Calm τ τ) (fun _ => pass.declareMethod m) σ := by
    refine Halts.bind (P := fun a _ => pass.Calm a.2 a.2) (halts_read fun a ha => ?_)
      fun a τ ha => ?_
    · exact hσ.declareFunction ha
    · refine Halts.bind (P := fun _ υ => pass.Calm υ υ) (halts_modify ha) fun _ υ hυ => ?_
      exact halts_modify (hυ.report _).rebase
  cases p with
  | method m | untyped m => exact hdeclare m
  | hole g => exact halts_throw

/-- Declaring a source halts. -/
theorem Source.Descends.halts_declareSource {s : Source} (hs : s.Descends)
    (hσ : pass.Calm σ σ) (hk : pass.Knows σ (keys [])) :
    Eval.Halts (fun _ τ => pass.Calm τ τ) (fun fuel => pass.declareSource fuel s) σ := by
  refine Halts.bind (P := fun _ τ => pass.Calm σ τ) (halts_forM (fun p hp τ hτ => ?_) hσ)
    fun _ τ hτ => ?_
  · obtain ⟨hfield, hwalk⟩ := hs.fields p hp
    exact halts_declareFieldPlace hk hfield hwalk hτ
  · exact halts_forM (fun p _ υ hυ => halts_declareMethodPlace p hυ) hτ.rebase

end Declarations

/-! ### Sources -/

/-- The call of the entry point halts if all functions of the pass do. -/
theorem halts_enter {pass : Pass} (hσ : pass.Calm σ σ)
    (hhalts : ∀ r ∈ (σ.table pass.scope.top).routines, r.Halts pass σ) :
    Eval.Halts (fun _ _ => True) pass.enter σ := by
  refine Halts.bind (P := fun r τ => r.Halts pass σ ∧ pass.Calm σ τ) (halts_read fun r hr => ?_)
    fun r τ ⟨hr, hτ⟩ => ?_
  · exact ⟨hhalts r (hσ.mem_of_scopeFunction hr).1, hσ⟩
  · refine Halts.bind (P := fun _ υ => pass.Calm σ υ) (halts_modify (hτ.report _)) fun _ υ hυ => ?_
    refine (hr [] υ (List.forall_mem_nil _) hυ).bind fun v ω hv => ?_
    refine Halts.bind (P := fun _ _ => True) (halts_lift fun _ _ => trivial) fun t _ _ => ?_
    exact Halts.bind (P := fun _ _ => True) (halts_modify trivial) fun _ _ _ => halts_pure trivial

/-- Where every call goes back, the evaluation halts. -/
theorem Source.Descends.halts_evaluate {s : Source} (hs : s.Descends) (hσ : host.Calm σ) :
    Eval.Halts (fun _ _ => True) (fun fuel => s.evaluate host fuel) σ := by
  have hnew := host.evaluator_spec σ
  have hcalm := hσ.evaluator
  have hown : ((host.evaluator σ).2.table (host.evaluator σ).1.scope.top).routines
      = [⟨printer (host.evaluator σ).1.scope.top, some .print⟩] ++ [] :=
    congrArg Table.routines hnew.table
  have hfields : (host.evaluator σ).1.Knows (host.evaluator σ).2 (keys []) :=
    hcalm.knows hown .nil (List.forall_mem_nil _)
  change Eval.Halts _ (fun fuel => (host.evaluator σ).1.declareSource fuel s >>= fun _ =>
    (host.evaluator σ).1.enter fuel) (host.evaluator σ).2
  refine (hs.halts_declareSource hcalm hfields).reached.bind fun _ ρ ⟨hρ, fuel, hdeclared⟩ => ?_
  refine halts_enter hρ fun r hr => ?_
  obtain ⟨rs, later, hadd, hruns, hlater⟩ :=
    Source.declareSource_functions hdeclared (List.append_nil _).symm
  cases hlater
  rw [hadd.own, hnew.table, List.append_nil] at hr
  rcases List.mem_cons.mp hr with rfl | hr
  · exact halts_print rfl
  · obtain ⟨p, hp, hrun⟩ := exists_left_of_forall₂ hruns hr
    refine hs.halts hρ (fun before after he => ?_) s.methods [] (List.append_nil _).symm p hp r hrun
    obtain ⟨rs, later, hadd, hruns, -⟩ := Source.declareSource_functions hdeclared he
    exact ⟨rs, later, by rw [hadd.own, hnew.table]; rfl, hruns⟩

/-- With enough fuel the evaluation ends, in the same way with any more: it has a value, or it stops
at a fault. -/
def Source.Terminates (s : Source) (host : Host) (σ : Store) : Prop :=
  ∃ n r, (∀ fuel, n ≤ fuel → s.evaluate host fuel σ = r) ∧ ∀ τ, r ≠ .error .outOfFuel τ

theorem Source.Descends.terminates {s : Source} (hs : s.Descends) (hσ : host.Calm σ) :
    s.Terminates host σ := by
  obtain ⟨n, r, hr, hrun⟩ := hs.halts_evaluate hσ
  refine ⟨n, r, hrun, ?_⟩
  rintro τ rfl
  cases hr

/-- **Accepted programs terminate** that have no loop over a condition and no method that calls
itself, where the host provides variables only and none of them holds an object. So they do whether
annotated or not, from every store of such a host, as is the one that the check leaves. -/
theorem Source.terminates_of_accepted {s : Source} (hσ : host.Calm σ)
    (haccepted : (s.analyze host σ).verdict = .ok ()) (hloop : s.Loopless)
    (hself : s.CallsNoneItself) :
    host.Calm (s.analyze host σ).store ∧
      ∀ t, s.Annotated t → ∀ host' τ, Host.Calm host' τ → t.Terminates host' τ := by
  have hs := s.descends_of_accepted haccepted
    (fun id hid => ⟨(hσ.tables id hid).1, (hσ.tables id hid).2.routines⟩) hloop hself
  exact ⟨hσ.analyze s, fun t ht host' τ hτ => (hs.of_bare ht.bare_eq.symm).terminates hτ⟩

/-- A scope of a host that binds the variable `items`, which holds three integers. -/
def furnished : Store :=
  let (scope, σ) := Store.initial.newScope none
  σ.modifyTable scope.top fun t => t.addSlot
    ⟨⟨"items", "items", some Builtin.integerIterable.type, .table scope.top⟩, .iterable [2, 3, 5]⟩

/-- The host that gives that scope. -/
def furnishing : Host :=
  ⟨some (Store.initial.newScope none).1, none⟩

/-- A source with a method that adds up the items, for one that prints the sum. -/
def summingUp : Source where
  fields := [.field ⟨"total", none, some (.literal (.integer 0) none), none⟩]
  methods :=
    [.method ⟨"add", ["n"], [some "Integer"], none,
      [.assignment (.access "total" none none)
        (.binary "+" (.access "total" none none) (.access "n" none none) none)], none⟩,
     .method ⟨"main", [], [], some "Integer",
      [.forEach "item" (.access "items" none none)
        [.expression (.call "add" [.access "item" none none] none none)],
       .expression (.call "print" [.access "total" none none] none none),
       .returning (.access "total" none none)], none⟩]

theorem Source.terminates_of_accepted_summing :
    furnishing.Calm furnished ∧ (summingUp.analyze furnishing furnished).verdict = .ok () ∧
    summingUp.Loopless ∧ summingUp.CallsNoneItself ∧
    summingUp.Terminates furnishing furnished ∧
    ((summingUp.evaluate furnishing 20).answer? furnished) = some (.integer 10) := by
  have hcalm : furnishing.Calm furnished := by
    refine ⟨?_, nofun⟩
    intro id hid
    cases List.mem_singleton.mp hid
    refine ⟨by decide, rfl, ?_⟩
    exact List.forall_mem_singleton.mpr nofun
  have haccepted : (summingUp.analyze furnishing furnished).verdict = .ok () := by decide +kernel
  have hloop : summingUp.Loopless := by decide +kernel
  have hself : summingUp.CallsNoneItself := by decide +kernel
  have h := Source.terminates_of_accepted hcalm haccepted hloop hself
  exact ⟨hcalm, haccepted, hloop, hself, h.2 _ .read _ _ hcalm, by decide +kernel⟩

end Parlance
