/-
Calls and their annotations.

The check annotates a call with the function that it means where it stands, and the
evaluation looks for the function anew.  The value of a field is checked and evaluated with
nothing but `print` in the own table.  In the body of a method the evaluation has bound all
methods, and the check only those up to this one.  So the two agree except in one case: where
the call means a function of the host, a method that comes later in the source and has its
key is called in its place.

This needs a host that declares nothing while the program runs, and the functions of the host are
such by what deeds are.  A host that bound a function in an inner scope of its own in the midst of
a run would hide one of an outer scope, and the calls that are annotated with that one would come
to the other.
-/
import Mathlib.Data.List.Permutation
import Parlance.Proofs.Calls.Resolution
import Parlance.Proofs.Checking.Parts
import Parlance.Proofs.Running.Code

namespace Parlance

open Store (AddsFunctions)

/-! ### Calls of a run -/

namespace Source

variable {s : Source} {host : Host} {σ τ : Store}

/-- A call in the value of a field means what it means to the check, which has bound no method by
then. -/
theorem call_in_field {tree : Source} {σ₁ : Store} {name : Name} {arguments : List Expr}
    {bound : Option Function} {t : Option Ty}
    (h : InOrder (host.checker σ).1.FieldTyped (host.checker σ).2 s.fields tree.fields σ₁)
    (hx : .expr (.call name arguments bound t) ∈ tree.fields.flatMap FieldPlace.walk) :
    ∃ σ' s, AddsFunctions (host.checker σ).1.scope.top (host.checker σ).2 σ' [] ∧
      bound = some s.function ∧
      σ'.findFunction name arguments.length (host.checker σ).1.scope.tables = some s := by
  obtain ⟨p, hp, hx⟩ := List.mem_flatMap.mp hx
  obtain ⟨before, after, he⟩ := List.append_of_mem hp
  obtain ⟨σ', _, _, _, _, hbefore, hplace, _⟩ := h.split he
  obtain ⟨v, hv⟩ := hplace.adds
  obtain ⟨f, hf, -, -, hd⟩ := hv.bound
  rw [FieldPlace.walk_of_field? hf] at hx
  rcases List.mem_cons.mp hx with hx | hx
  · cases hx
  · obtain ⟨s, hs⟩ := (Expr.typedIn (hd.part hx)).call
    exact ⟨σ', s, .of_same hbefore.fields_same, hs⟩

/-- A call in the body of a method means what it means to the check, which has bound the methods
up to this one by then. -/
theorem call_in_method {tree : Source} {σ₁ σ₂ : Store} {before after : List MethodPlace}
    {m : Method} {name : Name} {arguments : List Expr} {bound : Option Function} {t : Option Ty}
    (h : (host.checker σ).1.SourceTyped s tree (host.checker σ).2 σ₁ σ₂)
    (he : tree.methods = before ++ .method m :: after)
    (hx : .expr (.call name arguments bound t) ∈ walkStmts m.body) :
    ∃ σ' fs s, AddsFunctions (host.checker σ).1.scope.top (host.checker σ).2 σ'
        (fs.map fun f => ⟨f, none⟩) ∧
      List.Forall₂ (MethodPlace.Binds (host.checker σ).1.scope.top) (before ++ [.method m]) fs ∧
      bound = some s.function ∧
      σ'.findFunction name arguments.length (host.checker σ).1.scope.tables = some s := by
  have hfields : AddsFunctions (host.checker σ).1.scope.top (host.checker σ).2 σ₁ [] :=
    .of_same h.fields.fields_same
  have htop := hfields.hasTable (host.checker_spec σ).top
  obtain ⟨τ₁, τ₂, _, _, _, hbefore, hplace, _⟩ := h.methods.split he
  obtain ⟨fs, hfs, hbinds⟩ := hbefore.methods_functions htop
  obtain ⟨m', f, hm', ha⟩ := hplace.adds
  cases hm'
  obtain ⟨types, result, block, -, -, -, -, -, -, hbody⟩ := ha.body
  obtain ⟨s, hs⟩ := (hbody.part hx).call
  refine ⟨τ₂, fs ++ [f], s, ?_, List.rel_append hbinds (.cons ha.binds .nil), hs⟩
  rw [List.map_append]
  exact (hfields.trans hfs).trans (ha.functions (hfs.hasTable htop))

/-- When a source is declared, its methods are bound in the order in which they stand. -/
theorem declareSource_functions {tree : Source} {ρ : Store} {fuel : Nat}
    (h : (host.evaluator τ).1.declareSource fuel tree (host.evaluator τ).2 = .ok () ρ)
    {places after : List MethodPlace} (hs : tree.methods = places ++ after) :
    ∃ rs later,
      AddsFunctions (host.evaluator τ).1.scope.top (host.evaluator τ).2 ρ (rs ++ later) ∧
      List.Forall₂ (MethodPlace.Runs (host.evaluator τ).1) places rs ∧
      List.Forall₂ (MethodPlace.Runs (host.evaluator τ).1) after later := by
  obtain ⟨_, ρ₁, hfields, hmethods⟩ := Eval.bind_ok.mp h
  rw [hs, List.forM_eq_forM, List.forM_append] at hmethods
  obtain ⟨_, ρ₂, hplaces, hafter⟩ := Eval.bind_ok.mp hmethods
  have hadd : AddsFunctions (host.evaluator τ).1.scope.top (host.evaluator τ).2 ρ₁ [] :=
    .of_same (stable_declareFields _ _ _ hfields)
  have htop := hadd.hasTable (host.evaluator_spec τ).top
  obtain ⟨rs, hrs, hruns⟩ := Pass.declareMethods_functions hplaces htop
  obtain ⟨later, hlater, hruns'⟩ := Pass.declareMethods_functions hafter (hrs.hasTable htop)
  exact ⟨rs, later, (hadd.trans hrs).trans hlater, hruns, hruns'⟩

/-- An entry point that stands first is found by its name, since only `print` is bound before. -/
theorem main_of_declareSource {tree : Source} {ρ : Store} {fuel : Nat} {m : Method}
    (h : (host.evaluator τ).1.declareSource fuel tree (host.evaluator τ).2 = .ok () ρ)
    (hm : tree.methods[0]?.bind MethodPlace.method? = some m) (hname : m.name = ("main" : Name))
    (hparameters : m.parameters = []) :
    ∃ f, ρ.scopeFunction (host.evaluator τ).1.scope "main" 0
      = .ok ⟨f, some (.method m (host.evaluator τ).1)⟩ := by
  obtain ⟨p, hp, hm⟩ := Option.bind_eq_some_iff.mp hm
  obtain ⟨rest, hs⟩ := List.head?_eq_some_iff.mp (List.head?_eq_getElem?.trans hp)
  obtain ⟨_, later, hadd, hruns, -⟩ :=
    declareSource_functions h (show tree.methods = [p] ++ rest from hs)
  obtain ⟨⟨f, _⟩, _, ⟨m', hm', rfl, hkey⟩, hnil, rfl⟩ := List.forall₂_cons_left_iff.mp hruns
  cases hnil
  cases hm.symm.trans hm'
  rw [Method.HasKey, hname, hparameters] at hkey
  obtain ⟨hname, harity⟩ : f.name = ("main" : Name) ∧ f.arity = 0 := hkey
  have hown : (ρ.table (host.evaluator τ).1.scope.top).routine? "main" 0
      = some ⟨f, some (.method m (host.evaluator τ).1)⟩ := by
    rw [Table.routine?, hadd.own, (host.evaluator_spec τ).table]
    simp [printer, hname, harity]
  refine ⟨f, ρ.scopeFunction_ok.mpr ?_⟩
  rw [Scope.tables, Store.findFunction_cons, hown]
  rfl

/-- A method of the evaluator that a store has after the declaration of a source is one that stands
in the source, under its own key. -/
theorem routine_of_declareSource {tree : Source} {ρ : Store} {fuel : Nat} {f : Function}
    {m : Method}
    (h : (host.evaluator τ).1.declareSource fuel tree (host.evaluator τ).2 = .ok () ρ)
    (hτ : τ.Sound) (hmethods : ∀ p ∈ tree.methods, ∃ m, p = .method m)
    (hf : ρ.HasRoutine ⟨f, some (.method m (host.evaluator τ).1)⟩) :
    .method m ∈ tree.methods ∧ m.HasKey f := by
  obtain ⟨rs, later, hadd, hruns, hnone⟩ := declareSource_functions h (List.append_nil _).symm
  cases hnone
  rw [List.append_nil] at hadd
  obtain ⟨p, hmem, m', hp, hi, hkey⟩ := exists_left_of_forall₂ hruns (hτ.mem_of_method hadd hf)
  cases hi
  obtain ⟨m₀, rfl⟩ := hmethods p hmem
  cases hp
  exact ⟨hmem, hkey⟩

theorem method_of_declareSource {tree : Source} {ρ : Store} {fuel : Nat} {f : Function} {m : Method}
    (h : (host.evaluator τ).1.declareSource fuel tree (host.evaluator τ).2 = .ok () ρ)
    (hτ : τ.Sound) (hmethods : ∀ p ∈ tree.methods, ∃ m, p = .method m)
    (hf : ρ.HasRoutine ⟨f, some (.method m (host.evaluator τ).1)⟩) : .method m ∈ tree.methods :=
  (routine_of_declareSource h hτ hmethods hf).1

/-- **Calls come to what they are annotated with, unless a later method hides it.** In every run of
an accepted source inside the scope of a host, and at each call in the code of the source whose
arguments have come to values, the annotation is there and a function is found.  If the
annotation is a function of the host and a method after the calling one has its key, that
method is called; in every other case it is what the call is annotated with: that very function of
the host, `print`, or the method. -/
theorem call_agrees (h : (s.analyze host σ).verdict = .ok ()) (hp : host.Provides σ τ)
    (hτ : τ.Sound) {fuel n : Nat} {m : Moment}
    (hm : (s.analyze host σ).tree.Reaches host fuel τ m)
    (hpass : m.activation.pass = (host.evaluator τ).1) {name : Name} {arguments : List Expr}
    {bound : Option Function} {t : Option Ty} {vs : List Value} {τ' : Store}
    (ht : m.task = .expr (.call name arguments bound t))
    (hvs : evalAll m.activation.pass m.activation.locals n arguments m.store = .ok vs τ') :
    ∃ f r later, bound = some f ∧
      τ'.scopeFunction m.activation.pass.scope name vs.length = .ok r ∧
      (s.analyze host σ).tree.Later m.activation.method? later ∧
      (Hides host (host.evaluator τ).1 later f r ∨
        (f.home ∈ host.tables → ∀ m', .method m' ∈ later → ¬m'.HasKey f) ∧
          (s.analyze host σ).tree.Agrees host (host.checker σ).1 (host.evaluator τ).1 τ f r) := by
  obtain ⟨σ₁, σ₂, _, htyped, -⟩ := Pass.check_typed h
  have hmethods : ∀ p ∈ (s.analyze host σ).tree.methods, ∃ m, p = .method m := fun p hp =>
    htyped.methods.exists_method hp
  have hsame := (stableAt n).evalAll _ _ _ hvs
  have hx : Node.expr (.call name arguments bound t) ∈ m.task.nodes :=
    ht ▸ List.mem_cons_self
  rw [length_of_evalAll hvs, hpass]
  simp only [Store.scopeFunction_ok]
  rcases hm.within with hw | ⟨ρ, hρ, hw⟩
  · -- while fields are evaluated, nothing runs that has been declared by this pass
    have hx := hw.code hx
    cases hmethod : m.activation.method? with
    | some m' =>
      obtain ⟨f, hf⟩ := hw.origin m' hmethod
      cases hτ.mem_of_method (.of_same (.refl _)) (hpass ▸ hf)
    | none =>
      rw [Activation.code, hmethod] at hx
      obtain ⟨σ', s', hcheck, hb, hs⟩ := call_in_field htyped.fields hx
      have hrun : AddsFunctions (host.evaluator τ).1.scope.top (host.evaluator τ).2 τ' ([] ++ []) :=
        .of_same (hw.functions.trans hsame)
      obtain ⟨r, hr, hc⟩ := hp.counterpart hcheck hrun .nil .nil hs
      exact ⟨_, r, [], hb, hr, .field,
        hp.agrees hτ hcheck hrun (List.nil_subset _) hmethods .nil hc⟩
  · have hx := hw.code hx
    cases hmethod : m.activation.method? with
    | none =>
      rw [Activation.code, hmethod] at hx
      cases hx
    | some m' =>
      rw [Activation.code, hmethod] at hx
      obtain ⟨f, hf⟩ := hw.origin m' hmethod
      have hmem := method_of_declareSource hρ hτ hmethods (hpass ▸ hf)
      obtain ⟨before, after, he⟩ := List.append_of_mem hmem
      obtain ⟨σ', fs, s', hcheck, hbinds, hb, hs⟩ := call_in_method htyped he hx
      have he' : (s.analyze host σ).tree.methods = (before ++ [.method m']) ++ after := by
        rw [he, List.append_assoc]
        rfl
      obtain ⟨rs, later, hadd, hruns, hlater⟩ := declareSource_functions hρ he'
      have hrun := hadd.trans (.of_same (hw.functions.trans hsame))
      rw [List.append_nil] at hrun
      obtain ⟨r, hr, hc⟩ := hp.counterpart hcheck hrun hbinds hruns hs
      exact ⟨_, r, after, hb, hr, .method he,
        hp.agrees hτ hcheck hrun (he' ▸ List.Subset.refl _) hmethods hlater hc⟩

end Source

/-! ### A call that a later method hides -/

/-- The host that has bound `f` in a scope of its own, a function that answers 1. -/
def Host.offering : Host :=
  ⟨some (Store.initial.newScope .none).1, .none⟩

/-- The store that it has built for this. -/
def Store.offered : Store :=
  match (initial.newScope none).2.declareFunction (initial.newScope none).1.top ("f" : Text) []
    (some Builtin.integer.type) (some (.host (.constant (.integer 1)) false)) none with
  | .ok (_, σ) => σ
  | .error _ => initial

theorem Store.sound_offered : offered.Sound := by
  have hdecl : (initial.newScope none).2.declareFunction (initial.newScope none).1.top
      ("f" : Text) [] (some Builtin.integer.type) (some (.host (.constant (.integer 1)) false)) none
      = .ok (_, offered) := rfl
  refine ((sound_opened .memory).newScope none).declareFunction hdecl (by decide) fun _ _ hm => ?_
  cases hm

/-- The function that a name and a number of parameters mean in a scope. -/
def Store.function? (σ : Store) (scope : Scope) (name : Name) (arity : Nat) : Option Function :=
  (σ.findFunction name arity scope.tables).map Routine.function

theorem Store.exists_of_function? {σ : Store} {scope : Scope} {name : Name} {arity : Nat}
    {f : Function} (h : σ.function? scope name arity = some f) :
    ∃ i, σ.scopeFunction scope name arity = .ok ⟨f, i⟩ := by
  obtain ⟨⟨_, i⟩, hr, rfl⟩ := Option.map_eq_some_iff.mp h
  exact ⟨i, σ.scopeFunction_ok.mpr hr⟩

theorem Host.provides_offered : offering.Provides .offered .offered :=
  ⟨by decide +kernel, by decide +kernel, fun _ _ => rfl⟩

/-- Another scope of that host, inside the first one. -/
def Scope.enclosing : Scope :=
  (Store.offered.newScope Host.offering.parent).1

/-- The host that gives the program this scope. -/
def Host.enclosing : Host :=
  ⟨some Scope.enclosing, .none⟩

/-- The store that has it. -/
def Store.enclosed : Store :=
  (offered.newScope Host.offering.parent).2

namespace Source

/-- An entry point that answers what `f()` does, and after it a method `f` that has these
parameters and answers 2. -/
def calling (parameters : List Name) : Source where
  fields := []
  methods :=
    [.method ⟨"main", [], [], some "Integer", [.returning (.call "f" [] none none)], none⟩,
     .method ⟨"f", parameters, parameters.map fun _ => some "Integer", some "Integer",
      [.returning (.literal (.integer 2) none)], none⟩]

/-- The call of an entry point that begins with a `RETURN` goes on to the value. -/
theorem reaches_returned {s : Source} {host : Host} {fuel : Nat} {σ ρ : Store} {m : Method}
    {e : Expr} {ss : List Stmt}
    (hd : (host.evaluator σ).1.declareSource (fuel + 3) s (host.evaluator σ).2 = .ok () ρ)
    (hm : s.methods[0]?.bind MethodPlace.method? = some m) (hname : m.name = ("main" : Name))
    (hp : m.parameters = []) (hb : m.body = .returning e :: ss) :
    s.Reaches host (fuel + 3) σ
      ⟨⟨(host.evaluator σ).1, some m, [[]], [m.parameterVariables]⟩, .expr e, fuel,
        ρ.report .entering⟩ := by
  obtain ⟨f, hmain⟩ := main_of_declareSource hd hm hname hp
  have hbody : Leads ⟨(host.evaluator σ).1.outside,
      .invocation ⟨f, some (.method m (host.evaluator σ).1)⟩ [], fuel + 3, ρ.report .entering⟩
      ⟨⟨(host.evaluator σ).1, some m, [[]], [m.parameterVariables]⟩,
        .stmts (.returning e :: ss), fuel + 2, ρ.report .entering⟩ :=
    hb ▸ .body (by rw [hp]; rfl)
  exact ⟨_, .main hd hmain, ((Relation.ReflTransGen.single hbody).tail .first).tail .returning⟩

/-- The tree that the check leaves behind in the store that the host has built. -/
def offeredTree (parameters : List Name) : Source :=
  ((calling parameters).analyze .offering .offered).tree

/-- The methods of that tree. -/
def offeredMethod (parameters : List Name) (i : Nat) : Method :=
  ((offeredTree parameters).methods[i]?.bind MethodPlace.method?).getD default

/-- The function of the host, with which the check annotates the call. -/
def offeredFunction : Function :=
  ⟨"f", "f", [], some Builtin.integer.type, (Store.initial.newScope none).1.top⟩

/-- The store in which the tree has been declared. -/
def offeredStore (parameters : List Name) : Store :=
  Eval.after ((Host.offering.evaluator .offered).1.declareSource 4 (offeredTree parameters))
    (Host.offering.evaluator .offered).2

/-- The moment at which the entry point is about to call `f`. -/
def callingMoment (parameters : List Name) : Moment where
  activation := ⟨(Host.offering.evaluator .offered).1, some (offeredMethod parameters 0), [[]],
    [(offeredMethod parameters 0).parameterVariables]⟩
  task := .expr (.call "f" [] (some offeredFunction) (some Builtin.integer.type))
  fuel := 1
  store := (offeredStore parameters).report .entering

theorem reaches_callingMoment {parameters : List Name}
    (hd : ((Host.offering.evaluator .offered).1.declareSource 4 (offeredTree parameters)).answer?
      (Host.offering.evaluator .offered).2 = some ())
    (hm : ((offeredTree parameters).methods[0]?.bind MethodPlace.method?).isSome = true)
    (hname : (offeredMethod parameters 0).name = ("main" : Name))
    (hp : (offeredMethod parameters 0).parameters = [])
    (hb : (offeredMethod parameters 0).body =
      [.returning (.call "f" [] (some offeredFunction) (some Builtin.integer.type))]) :
    (offeredTree parameters).Reaches .offering 4 .offered (callingMoment parameters) := by
  have hm : (offeredTree parameters).methods[0]?.bind MethodPlace.method?
      = some (offeredMethod parameters 0) := by
    obtain ⟨m, hm⟩ := Option.isSome_iff_exists.mp hm
    rw [offeredMethod, hm, Option.getD_some]
  exact reaches_returned (Eval.eq_of_answer? hd) hm hname hp hb

/-- When `f` takes a parameter it has another key than the function of the host. -/
theorem call_agrees_offered :
    ((calling ["n"]).analyze .offering .offered).verdict = .ok () ∧
    Host.offering.Provides .offered .offered ∧ Store.offered.Sound ∧
    (offeredTree ["n"]).Reaches .offering 4 .offered (callingMoment ["n"]) ∧
    ∃ f r later, some offeredFunction = some f ∧
      (callingMoment ["n"]).store.scopeFunction (Host.offering.evaluator .offered).1.scope "f" 0
        = .ok r ∧
      (offeredTree ["n"]).Later (some (offeredMethod ["n"] 0)) later ∧
      (Hides .offering (Host.offering.evaluator .offered).1 later f r ∨
        (f.home ∈ Host.offering.tables → ∀ m, .method m ∈ later → ¬m.HasKey f) ∧
          (offeredTree ["n"]).Agrees .offering (Host.offering.checker .offered).1
            (Host.offering.evaluator .offered).1 .offered f r) := by
  have h : ((calling ["n"]).analyze .offering .offered).verdict = .ok () := by decide +kernel
  have hm : (offeredTree ["n"]).Reaches .offering 4 .offered (callingMoment ["n"]) :=
    reaches_callingMoment (by decide +kernel) (by decide +kernel) (by decide +kernel)
      (by decide +kernel) (by cbv)
  have hvs : evalAll (callingMoment ["n"]).activation.pass (callingMoment ["n"]).activation.locals 1
      [] (callingMoment ["n"]).store = .ok [] (callingMoment ["n"]).store := by
    simp only [evalAll]
    rfl
  have hpass : (callingMoment ["n"]).activation.pass = (Host.offering.evaluator .offered).1 := by
    simp only [callingMoment]
  have htask : (callingMoment ["n"]).task
      = .expr (.call "f" [] (some offeredFunction) (some Builtin.integer.type)) := by
    simp only [callingMoment]
  have hall := call_agrees h Host.provides_offered Store.sound_offered hm hpass htask hvs
  rw [hpass] at hall
  exact ⟨h, Host.provides_offered, Store.sound_offered, hm, hall⟩

/-- The tree that the check leaves behind if the host has put another scope around the program, in
which it has bound nothing. -/
def enclosedTree : Source :=
  ((calling ["n"]).analyze .enclosing .enclosed).tree

/-- The store in which that tree has been declared. -/
def enclosedStore : Store :=
  Eval.after ((Host.enclosing.evaluator .enclosed).1.declareSource 4 enclosedTree)
    (Host.enclosing.evaluator .enclosed).2

/-- Another `f` that the host may bind, in the scope that is nearer to the program. -/
def nearerFunction : Function :=
  ⟨"f", "f", [], some Builtin.integer.type, Scope.enclosing.top⟩

/-- When it takes none it hides that function, and the call does not come to what it is annotated
with.  Nor does it, whatever the method takes, once the host has bound another `f` in a scope that
is nearer to the program than that of the first one. -/
theorem call_hidden :
    (((calling []).analyze .offering .offered).verdict = .ok () ∧
      Host.offering.Provides .offered .offered ∧ Store.offered.Sound ∧
      (offeredTree []).Reaches .offering 4 .offered (callingMoment []) ∧
      offeredFunction.home ∈ Host.offering.tables ∧
      ∃ r, (callingMoment []).store.scopeFunction (Host.offering.evaluator .offered).1.scope "f" 0
          = .ok r ∧
        r.function ≠ offeredFunction ∧
        ¬(offeredTree []).Agrees .offering (Host.offering.checker .offered).1
          (Host.offering.evaluator .offered).1 .offered offeredFunction r) ∧
    (((calling ["n"]).analyze .enclosing .enclosed).verdict = .ok () ∧
      (enclosedTree.methods[0]?.bind MethodPlace.method?).map Method.body = some
        [.returning (.call "f" [] (some offeredFunction) (some Builtin.integer.type))] ∧
      (∃ i, enclosedStore.scopeFunction (Host.enclosing.evaluator .enclosed).1.scope "f" 0
        = .ok ⟨offeredFunction, i⟩) ∧
      ∃ g τ i, enclosedStore.declareFunction Scope.enclosing.top "f" []
          (some Builtin.integer.type) (some (.host (.constant (.integer 2)) false)) none
          = .ok (g, τ) ∧
        τ.scopeFunction (Host.enclosing.evaluator .enclosed).1.scope "f" 0 = .ok ⟨g, i⟩ ∧
        g ≠ offeredFunction) := by
  have hm : (offeredTree []).Reaches .offering 4 .offered (callingMoment []) :=
    reaches_callingMoment (by decide +kernel) (by decide +kernel) (by decide +kernel)
      (by decide +kernel) (by cbv)
  have hhome : offeredFunction.home ∈ Host.offering.tables := by decide +kernel
  have hlater : (callingMoment []).store.function? (Host.offering.evaluator .offered).1.scope "f" 0
      = some ⟨"f", "f", [], some Builtin.any.type,
        (Host.offering.evaluator .offered).1.scope.top⟩ := by decide +kernel
  obtain ⟨i, hi⟩ := Store.exists_of_function? hlater
  have hne : (⟨"f", "f", [], some Builtin.any.type,
      (Host.offering.evaluator .offered).1.scope.top⟩ : Function) ≠ offeredFunction := by
    decide +kernel
  have hfirst : enclosedStore.function? (Host.enclosing.evaluator .enclosed).1.scope "f" 0
      = some offeredFunction := by decide +kernel
  have hfree : (enclosedStore.table Scope.enclosing.top).routine? "f" 0 = none :=
    Option.isNone_iff_eq_none.mp (by decide +kernel)
  have hdeclared : enclosedStore.declareFunction Scope.enclosing.top "f" []
      (some Builtin.integer.type) (some (.host (.constant (.integer 2)) false)) none
      = .ok (nearerFunction, enclosedStore.modifyTable Scope.enclosing.top fun t =>
        t.addRoutine ⟨nearerFunction, some (.host (.constant (.integer 2)) false)⟩) := by
    rw [Store.declareFunction, List.length_nil, hfree]
    rfl
  have hnearer : (enclosedStore.modifyTable Scope.enclosing.top fun t =>
        t.addRoutine ⟨nearerFunction, some (.host (.constant (.integer 2)) false)⟩).function?
      (Host.enclosing.evaluator .enclosed).1.scope "f" 0 = some nearerFunction := by
    decide +kernel
  obtain ⟨j, hj⟩ := Store.exists_of_function? hnearer
  refine ⟨⟨by decide +kernel, Host.provides_offered, Store.sound_offered, hm, hhome, _, hi, hne,
    fun ha => ?_⟩, by decide +kernel, by cbv, Store.exists_of_function? hfirst, _, _, j, hdeclared,
    hj, by decide +kernel⟩
  cases ha with
  | print hf hr => exact absurd hf (by decide +kernel)
  | method hh => exact absurd (hh ▸ hhome) Host.provides_offered.not_mem
  | host hh hf hr => exact hne hf

end Source

end Parlance
