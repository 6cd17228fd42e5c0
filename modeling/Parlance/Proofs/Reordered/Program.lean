/-
The order of methods does not matter.

The evaluation declares all methods of a source before any of them runs, and a call looks a function
up by its name and the number of arguments.  So if no two methods have the same name and the same
number of parameters, and none has those of `print`, declaring them in another order succeeds as
well, and every table has the same function under each key.  That is all that the rest of the run
can see of it: both runs go together from there.
-/
import Mathlib.Data.List.Find
import Mathlib.Data.List.Nodup
import Parlance.Program
import Parlance.Proofs.Paired.Relocation
import Parlance.Proofs.Running.Added
import Parlance.Proofs.Running.Stable

namespace Parlance

/-! ### Keys -/

/-- Each place has a method, and each method a key of its own, which is not that of `print`. -/
structure Source.DistinctMethods (s : Source) : Prop where
  methods : ∀ p ∈ s.methods, ∃ m, p.method? = some m
  keys : (s.methods.filterMap MethodPlace.key?).Nodup
  print : ((some "print" : Name), 1) ∉ s.methods.filterMap MethodPlace.key?

theorem Source.DistinctMethods.perm {s : Source} (h : s.DistinctMethods) {ps : List MethodPlace}
    (hp : s.methods.Perm ps) : ({ s with methods := ps } : Source).DistinctMethods :=
  ⟨fun p hmem => h.methods p (hp.mem_iff.mpr hmem), (hp.filterMap _).nodup_iff.mp h.keys,
    fun hmem => h.print ((hp.filterMap _).mem_iff.mpr hmem)⟩

variable {pass : Pass} {σ τ : Store}

theorem keys_methodRoutine? (ps : List MethodPlace) :
    (ps.filterMap pass.methodRoutine?).map Routine.key = ps.filterMap MethodPlace.key? := by
  rw [List.map_filterMap]
  refine List.filterMap_congr fun p _ => ?_
  rw [Pass.methodRoutine?, MethodPlace.key?, Option.map_map]
  refine congrArg (p.method?.map ·) (funext fun m => ?_)
  simp [Pass.ownRoutine, Routine.key, Function.arity]

/-- In lists of functions under different keys, the order does not matter to looking up. -/
theorem routine?_perm {t t' : Table} (h : t.routines.Perm t'.routines)
    (hkeys : (t.routines.map Routine.key).Nodup) (n : Name) (count : Nat) :
    t'.routine? n count = t.routine? n count := by
  refine (List.find?_eq_find?_of_perm h ?_).symm
  rintro r ⟨hr, hn⟩ r' ⟨hr', hn'⟩
  simp only [Bool.and_eq_true, beq_iff_eq] at hn hn'
  refine List.inj_on_of_nodup_map hkeys hr hr' ?_
  rw [Routine.key, Routine.key, hn.1, hn.2, hn'.1, hn'.2]

/-! ### Declaring -/

theorem Store.SameValues.refl (σ : Store) : σ.SameValues σ :=
  ⟨fun _ => rfl, rfl, rfl⟩

theorem Store.SameValues.trans {υ : Store} (h : σ.SameValues τ) (h' : τ.SameValues υ) :
    σ.SameValues υ :=
  ⟨fun id => (h'.slots id).trans (h.slots id), h'.output.trans h.output,
    h'.encoding.trans h.encoding⟩

/-- A method whose key is free is declared. -/
theorem Pass.declareMethod_eq {m : Method}
    (hfree : (σ.table pass.scope.top).routine? m.name m.parameters.length = none) :
    pass.declareMethod m σ = .ok ()
      ((σ.modifyTable pass.scope.top fun t => t.addRoutine (pass.ownRoutine m)).report
        (.declaredMethod m.name m.parameters.length)) := by
  have hd : σ.declareFunction pass.scope.top m.name
      (.replicate m.parameters.length (some Builtin.any.type)) (some Builtin.any.type)
      (some (.method m pass)) none = .ok ((pass.ownRoutine m).function,
        σ.modifyTable pass.scope.top fun t => t.addRoutine (pass.ownRoutine m)) := by
    unfold Store.declareFunction
    rw [List.length_replicate, hfree]
    rfl
  unfold Pass.declareMethod
  rw [Eval.bind_apply (Eval.read_ok hd)]
  rfl

theorem Pass.declareMethodPlace_ok {p : MethodPlace} {m : Method} (hp : p.method? = some m)
    (hfree : (σ.table pass.scope.top).routine? m.name m.parameters.length = none) :
    ∃ τ, pass.declareMethodPlace p σ = .ok () τ ∧ σ.SameValues τ := by
  have method : ∃ τ, pass.declareMethod m σ = .ok () τ ∧ σ.SameValues τ := by
    refine ⟨_, Pass.declareMethod_eq hfree, fun id => ?_, rfl, rfl⟩
    have hslots := σ.table_modifyTable pass.scope.top id
      fun t => t.addRoutine (pass.ownRoutine m)
    rcases hslots with h | ⟨rfl, -, h⟩
    · exact congrArg Table.slots h
    · exact (congrArg Table.slots h).trans rfl
  cases p with
  | method m' =>
    cases hp
    exact method
  | untyped m' =>
    cases hp
    exact method
  | hole g => cases hp

/-- Methods with different keys, none of which is taken, are all declared. -/
theorem Pass.declareMethods_ok {ps : List MethodPlace} (hps : ∀ p ∈ ps, ∃ m, p.method? = some m)
    (htop : σ.HasTable pass.scope.top)
    (hkeys : ((σ.table pass.scope.top).routines.map Routine.key
      ++ ps.filterMap MethodPlace.key?).Nodup) :
    ∃ τ, ps.forM pass.declareMethodPlace σ = .ok () τ ∧ σ.SameValues τ ∧
      σ.Adds pass.scope.top [] (ps.filterMap pass.methodRoutine?) τ := by
  induction ps generalizing σ with
  | nil => exact ⟨σ, rfl, .refl σ, .refl σ⟩
  | cons p ps ih =>
    obtain ⟨m, hm⟩ := hps p List.mem_cons_self
    have hkey : p.key? = some (m.name, m.parameters.length) := by rw [MethodPlace.key?, hm]; rfl
    have hroutine : pass.methodRoutine? p = some (pass.ownRoutine m) := by
      rw [Pass.methodRoutine?, hm]; rfl
    have hfree : (σ.table pass.scope.top).routine? m.name m.parameters.length = none := by
      cases hr : (σ.table pass.scope.top).routine? m.name m.parameters.length with
      | none => rfl
      | some r =>
        obtain ⟨hmem, hname, harity⟩ := Table.mem_of_routine? hr
        rw [List.filterMap_cons, hkey] at hkeys
        refine absurd rfl ((List.nodup_append.mp hkeys).2.2 _ (List.mem_map_of_mem hmem) _ ?_)
        rw [Routine.key, hname, harity]
        exact List.mem_cons_self
    obtain ⟨ρ, hρ, hvalues⟩ := Pass.declareMethodPlace_ok hm hfree
    have hadds := binds_declareMethodPlace pass p htop hρ
    have hkeys' : ((ρ.table pass.scope.top).routines.map Routine.key
        ++ ps.filterMap MethodPlace.key?).Nodup := by
      rw [hadds.functions.own, hroutine]
      rw [List.filterMap_cons, hkey] at hkeys
      simpa [Pass.ownRoutine, Routine.key, Function.arity] using hkeys
    obtain ⟨τ, hτ, hvalues', hadds'⟩ := ih (fun q hq => hps q (List.mem_cons_of_mem _ hq))
      (hadds.hasTable htop) hkeys'
    refine ⟨τ, Eval.bind_ok.mpr ⟨(), ρ, hρ, hτ⟩, hvalues.trans hvalues', ?_⟩
    rw [← toList_append_filterMap]
    exact hadds.trans hadds'

namespace Reordered

/-- The tables of both runs are the same ones, and faults are the same. -/
def relocation : Relocation :=
  .here Eq (fun _ => rfl) Eq Encoding.takes_of_eq

/-- Declared in two orders, the same methods leave stores that agree. -/
theorem stores_of_perm {ps ps' : List MethodPlace} (hp : ps.Perm ps') {τ τ' : Store}
    (hv : σ.SameValues τ) (hv' : σ.SameValues τ')
    (h : σ.Adds pass.scope.top [] (ps.filterMap pass.methodRoutine?) τ)
    (h' : σ.Adds pass.scope.top [] (ps'.filterMap pass.methodRoutine?) τ')
    (hkeys : ((σ.table pass.scope.top).routines.map Routine.key
      ++ ps.filterMap MethodPlace.key?).Nodup) : relocation.Stores τ τ' := by
  have hτ : relocation.Stores τ τ := Relocation.stores_refl τ rfl
  have hslots (id : TableId) : (τ'.table id).slots = (τ.table id).slots :=
    (hv'.slots id).trans (hv.slots id).symm
  have hroutine (id : TableId) (n : Name) (count : Nat) :
      (τ'.table id).routine? n count = (τ.table id).routine? n count := by
    by_cases hid : id = pass.scope.top
    · subst hid
      refine routine?_perm ?_ ?_ n count
      · rw [h.functions.own, h'.functions.own]
        exact (hp.filterMap _).append_left _
      · rwa [h.functions.own, List.map_append, keys_methodRoutine?]
    · unfold Table.routine?
      rw [h.functions.other id hid, h'.functions.other id hid]
  have htype (r : RegistryId) (n : Text) : τ'.type? r n = τ.type? r n := by
    unfold Store.type? Store.registry
    rw [h.registries, h'.registries]
  refine ⟨fun {i j} hij => ?_, fun {i j} hij => ?_, fun {i j} hij n count => ?_,
    fun {r r'} hr n => ?_, hv'.output.trans hv.output.symm, hv.encoding.trans hv'.encoding.symm⟩
  · cases hij
    rw [Store.HasTable, Store.HasTable, h.functions.size, h'.functions.size]
  · cases hij
    rw [hslots]
    exact hτ.slots rfl
  · cases hij
    rw [hroutine]
    exact hτ.routines rfl n count
  · cases hr
    rw [htype]
    exact hτ.types rfl n

/-- Once the fields are declared, a new pass has only bound `print` in its own table. -/
theorem nodup_keys {s : Source} (hs : s.DistinctMethods) {host : Host} {fuel : Nat} {ρ : Store}
    (h : s.fields.forM ((host.evaluator σ).1.declareFieldPlace fuel) (host.evaluator σ).2
      = .ok () ρ) :
    ((ρ.table (host.evaluator σ).1.scope.top).routines.map Routine.key
      ++ s.methods.filterMap MethodPlace.key?).Nodup := by
  have hsame := stable_declareFields _ _ _ h
  have hnew := σ.newPass_spec host.parent host.registry (some .print)
  have hown : ((host.evaluator σ).2.table (host.evaluator σ).1.scope.top).routines
      = [⟨printer (host.evaluator σ).1.scope.top, some .print⟩] :=
    congrArg Table.routines hnew.table
  rw [hsame.routines, hown]
  exact List.nodup_cons.mpr ⟨hs.print, hs.keys⟩

/-- **The order of methods cannot be observed.** If the methods of a source have keys of their own,
the source and one with the methods in another order run the same under every host and with any
amount of fuel: both runs have the same value, or are stopped by the same fault, and leave the same
values in all variables and the same output. -/
theorem order_unobservable {s : Source} (hs : s.DistinctMethods) {methods : List MethodPlace}
    (hp : s.methods.Perm methods) (host : Host) (fuel : Nat) (σ : Store) :
    EndsSame Store.SameValues (s.evaluate host fuel σ)
      (({ s with methods } : Source).evaluate host fuel σ) := by
  have hnew := σ.newPass_spec host.parent host.registry (some .print)
  have hevaluate (s : Source) : s.evaluate host fuel σ
      = ((host.evaluator σ).1.declareSource fuel s >>= fun _ => (host.evaluator σ).1.enter fuel)
        (host.evaluator σ).2 := rfl
  rw [hevaluate, hevaluate, Pass.declareSource, Pass.declareSource, bind_assoc, bind_assoc]
  cases hfields : s.fields.forM ((host.evaluator σ).1.declareFieldPlace fuel)
      (host.evaluator σ).2 with
  | error stop ρ =>
    -- the order has not come into it yet
    rw [Eval.bind_error hfields, Eval.bind_error hfields]
    exact .stop (.refl ρ)
  | ok u ρ =>
    rw [Eval.bind_apply hfields, Eval.bind_apply hfields]
    have htop : ρ.HasTable (host.evaluator σ).1.scope.top :=
      (stable_declareFields _ _ _ hfields).hasTable hnew.top
    have hkeys := nodup_keys hs hfields
    have hkeys' := nodup_keys (hs.perm hp) hfields
    obtain ⟨τ, hτ, hv, hadds⟩ := Pass.declareMethods_ok hs.methods htop hkeys
    obtain ⟨τ', hτ', hv', hadds'⟩ := Pass.declareMethods_ok (hs.perm hp).methods htop hkeys'
    rw [Eval.bind_apply hτ, Eval.bind_apply hτ']
    have hstores := stores_of_perm hp hv hv' hadds hadds' hkeys
    have together : relocation.pairing.Together _ ((host.evaluator σ).1.enter fuel)
        ((host.evaluator σ).1.enter fuel) :=
      relocation.pairing_lawful.enter (Relocation.passes_refl _)
    exact (Relocation.endsSame Eq.symm Eq.symm (fun h => h.1.symm) (together hstores)).mono
      fun _ _ h => h.sameValues Eq.symm

/-- Two methods that call each other, one by a wrong number of arguments in the end. -/
def alternating : Source where
  fields := [.field ⟨"n", none, some (.literal (.integer 3) none), none⟩]
  methods :=
    [.method ⟨"even", [], [], none,
        [.assignment (.access "n" none none)
            (.binary "-" (.access "n" none none) (.literal (.integer 1) none) none),
          .expression (.call "odd" [.access "n" none none] none none)], none⟩,
      .method ⟨"odd", ["k"], [some "Integer"], none,
        [.expression (.call "print" [.access "k" none none] none none),
          .conditional (.binary "==" (.access "k" none none) (.literal (.integer 0) none) none)
            [.expression (.call "even" [.access "k" none none] none none)]
            [.expression (.call "even" [] none none)]], none⟩,
      .method ⟨"main", [], [], some "Integer",
        [.expression (.call "even" [] none none)], none⟩]

/-- With its methods the other way round it counts down and stops in the same call. -/
theorem order_unobservable_alternating :
    alternating.DistinctMethods ∧ alternating.methods.Perm alternating.methods.reverse ∧
    ∃ τ, ({ alternating with methods := alternating.methods.reverse } : Source).evaluate .none 60
        .initial = .error (.fault (.binding (.arity "even" 1))) τ ∧ τ.output = "2\n1\n0\n" := by
  have distinct : alternating.DistinctMethods := by
    refine ⟨fun p hp => ?_, by decide, by decide⟩
    simp only [alternating, List.mem_cons, List.not_mem_nil, or_false] at hp
    rcases hp with rfl | rfl | rfl <;> exact ⟨_, rfl⟩
  have perm := (List.reverse_perm alternating.methods).symm
  have ends := order_unobservable distinct perm .none 60 .initial
  obtain ⟨σ, hσ⟩ := Eval.exists_of_stop? (x := alternating.evaluate .none 60) (σ := .initial)
    (s := .fault (.binding (.arity "even" 1))) (by decide +kernel)
  have output : (Eval.after (alternating.evaluate .none 60) .initial).output = "2\n1\n0\n" := by
    decide +kernel
  rw [Eval.after, hσ] at output
  rw [hσ] at ends
  generalize ({ alternating with methods := alternating.methods.reverse } : Source).evaluate
    .none 60 .initial = r at ends
  cases ends with
  | stop h => exact ⟨distinct, perm, _, rfl, h.output.trans output⟩

end Reordered

end Parlance
