/-
No argument is dropped.

Arguments are paired with parameters by walking along both lists, and such a walk ends where the
shorter one does, without a word.  It never leaves anything over.

At run time a method is called as the implementation of a function, which has been found by the
number of the arguments.  Every store that there can be has methods bound under their own keys, so
this is the number of the parameters too, and the first frame of the method has them all.  A step of
a run adds to a frame or enters one more, so the parameters stay in it as long as the method runs.

The check finds a function by the number of the arguments as well.  To a receiver belongs the first
of its parameters, and then the number is one more; each argument is held against the type of its
own parameter.
-/
import Parlance.Proofs.Calls.Attained
import Parlance.Proofs.Checking.Bare
import Parlance.Proofs.Running.Code
import Parlance.Proofs.Variables.Located

namespace Parlance

/-! ### The frame of the parameters -/

namespace Frame

variable {frame frame' : Frame}

/-- What a frame binds it binds for good. -/
theorem get?_declareAll_of_some {bindings : List (Name × Value)} {name : Name} {v : Value}
    (h : frame.declareAll bindings = .ok frame') (hv : get? frame name = some v) :
    get? frame' name = some v := by
  rw [declareAll_ok h, get?_append, hv, Option.some_or]

/-- Each name that is declared has the value that was declared with it. -/
theorem get?_declareAll {bindings : List (Name × Value)} {name : Name} {v : Value}
    (h : frame.declareAll bindings = .ok frame') (hb : (name, v) ∈ bindings) :
    get? frame' name = some v := by
  induction bindings generalizing frame with
  | nil => cases hb
  | cons b rest ih =>
    obtain ⟨n, w⟩ := b
    rw [declareAll] at h
    split at h
    · cases h
    · next g hd =>
      rcases List.mem_cons.mp hb with heq | hb
      · cases heq
        refine get?_declareAll_of_some h ?_
        unfold declare at hd
        split at hd
        · cases hd
        · next hnone =>
          cases hd
          rw [get?_append, hnone]
          simp [get?]
      · exact ih h hb

/-- As many values as names are paired one by one. -/
theorem forall₂_declareAll {names : List Name} {vs : List Value}
    (h : declareAll [] (names.zip vs) = .ok frame) (hlen : vs.length = names.length) :
    List.Forall₂ (fun name v => get? frame name = some v) names vs := by
  refine List.forall₂_iff_zip.mpr ⟨hlen.symm, ?_⟩
  intro name v hmem
  exact get?_declareAll h hmem

end Frame

/-- The outermost of the frames begins with these names. -/
def Supplies (parameters : List Name) (frames : List (List Name)) : Prop :=
  ∃ names, frames.getLast? = some names ∧ parameters <+: names

namespace Supplies

variable {parameters : List Name} {frames : List (List Name)}

theorem cons (h : Supplies parameters frames) (names : List Name) :
    Supplies parameters (names :: frames) := by
  obtain ⟨outer, hlast, hprefix⟩ := h
  exact ⟨outer, by rw [List.getLast?_cons, hlast, Option.getD_some], hprefix⟩

theorem grow (h : Supplies parameters frames) (o : Option Name) :
    Supplies parameters (grow o frames) := by
  obtain ⟨outer, hlast, hprefix⟩ := h
  cases o with
  | none =>
    rw [grow_none]
    exact ⟨outer, hlast, hprefix⟩
  | some name =>
    match frames with
    | [] => cases hlast
    | [names] =>
      cases hlast
      exact ⟨_, rfl, hprefix.trans (List.prefix_append _ _)⟩
    | names :: next :: rest => exact ⟨outer, hlast, hprefix⟩

theorem exists_frame {locals : Locals} (h : Supplies parameters locals.names) :
    ∃ frame, locals.getLast? = some frame ∧ parameters <+: frame.map Prod.fst := by
  obtain ⟨names, hlast, hprefix⟩ := h
  rw [Locals.names, List.getLast?_map] at hlast
  obtain ⟨frame, hframe, rfl⟩ := Option.map_eq_some_iff.mp hlast
  exact ⟨frame, hframe, hprefix⟩

end Supplies

/-- Within an activation the outermost frame keeps the names that it begins with. -/
theorem Leads.supplies {m m' : Moment} (hl : Leads m m') (hcall : ∀ r vs, m.task ≠ .invocation r vs)
    {parameters : List Name} (h : Supplies parameters m.activation.locals.names) :
    Supplies parameters m'.activation.locals.names := by
  cases hl with
  | body _ => exact absurd rfl (hcall _ _)
  | rest hs =>
    have hnames := ((keepsAt _).exec _ _ _ hs).2
    exact (show _ = _ from hnames) ▸ h.grow _
  | inside => exact h.cons _
  | nextIteration hb =>
    have hnames := ((keepsAt _).block (d := False) _ _ _ _ hb).2
    exact (show _ = _ from hnames) ▸ h
  | loopAgain _ hb =>
    have hnames := ((keepsAt _).block (d := False) _ _ _ _ hb).2
    exact (show _ = _ from hnames) ▸ h
  | _ => exact h

/-! ### Runs -/

/-- A function that is found by the number of the arguments and runs a method has found as many
arguments as the method has parameters. -/
theorem Store.Matched.length_eq {σ : Store} (h : σ.Matched) {f : Function} {method : Method}
    {pass : Pass} (hr : σ.HasRoutine ⟨f, some (.method method pass)⟩) {n : Nat}
    (hn : f.arity = n) : n = method.parameters.length := by
  rw [← hn]
  exact (h _ hr method pass rfl).2

/-- Each method is bound under its own key, gets an argument for each parameter where it is called,
and has its parameters in its first frame while it runs. -/
structure Moment.Supplied (m : Moment) : Prop where
  matched : m.store.Matched
  arguments : ∀ f method pass vs, m.task = .invocation ⟨f, some (.method method pass)⟩ vs →
    vs.length = method.parameters.length
  frame : ∀ method, m.activation.method? = some method →
    Supplies method.parameters m.activation.locals.names

/-- **A step of a run leaves no argument over.** -/
theorem Moment.Supplied.leads {m m' : Moment} (hl : Leads m m') (h : m.Supplied) :
    m'.Supplied := by
  have hmatched : m'.store.Matched := h.matched.of_same hl.changes.same_functions
  refine ⟨hmatched, ?_, ?_⟩
  · intro f method pass vs ht
    have hr : m'.task.routine? = some ⟨f, some (.method method pass)⟩ := by rw [ht]; rfl
    exact hmatched.length_eq (hl.hasRoutine hr) (hl.arity ht)
  · by_cases hcall : ∃ r vs, m.task = .invocation r vs
    · -- the frame of the parameters is the only one of a method that is called
      obtain ⟨r, vs, ht⟩ := hcall
      obtain ⟨a, task, n, σ⟩ := m
      cases ht
      cases hl with
      | @body _ _ _ f method pass _ frame hf =>
        intro method' hm
        cases hm
        have hlen := h.arguments f method pass vs rfl
        refine ⟨method.parameters, ?_, List.prefix_refl _⟩
        rw [Frame.declareAll_ok hf, List.nil_append]
        simp only [Locals.names, List.map_cons, List.map_nil, List.getLast?_singleton]
        rw [List.map_fst_zip (Nat.le_of_eq hlen.symm)]
    · have hcall' : ∀ r vs, m.task ≠ .invocation r vs := fun r vs ht => hcall ⟨r, vs, ht⟩
      intro method hm
      rw [(hl.same_method hcall').2] at hm
      exact hl.supplies hcall' (h.frame method hm)

/-- What the evaluation of a pass begins with, outside of all methods: an expression, which may be
the value of a field once those before it are declared, statements, the entry point of a source that
has been declared, and the call of a function that the host has looked up. -/
inductive Pass.Begins (pass : Pass) (σ : Store) : Moment → Prop
  | value {before : List FieldPlace} {e : Expr} {fuel n : Nat} {τ : Store}
      (hb : before.forM (pass.declareFieldPlace fuel) σ = .ok () τ) :
      Begins pass σ ⟨pass.outside, .expr e, n, τ⟩
  | statements (ss : List Stmt) (n : Nat) : Begins pass σ ⟨pass.outside, .stmts ss, n, σ⟩
  | main {s : Source} {fuel : Nat} {main : Routine} {τ : Store}
      (hd : pass.declareSource fuel s σ = .ok () τ)
      (hm : τ.scopeFunction pass.scope "main" 0 = .ok main) :
      Begins pass σ ⟨pass.outside, .invocation main [], fuel, τ.report .entering⟩
  | scopeCall {scope : Scope} {name : Name} {vs : List Value} {r : Routine}
      (hr : σ.scopeFunction scope name vs.length = .ok r) (n : Nat) :
      Begins pass σ ⟨pass.outside, .invocation r vs, n, σ⟩
  | memberCall {id : TableId} {name : Name} {vs : List Value} {r : Routine}
      (hr : σ.memberFunction id name vs.length = .ok r) (n : Nat) :
      Begins pass σ ⟨pass.outside, .invocation r vs, n, σ⟩

/-- A function that has been found by the number of the arguments is called outside of all
methods. -/
theorem Moment.Supplied.of_found {pass : Pass} {σ : Store} {r : Routine} {vs : List Value}
    (hσ : σ.Matched) (hr : σ.HasRoutine r) (harity : r.function.arity = vs.length) (n : Nat) :
    Supplied ⟨pass.outside, .invocation r vs, n, σ⟩ := by
  refine ⟨hσ, ?_, ?_⟩
  · intro f method declaring vs ht
    cases ht
    exact hσ.length_eq hr harity
  · intro method hmethod
    cases hmethod

/-- Nothing is called yet, and no method runs. -/
theorem Moment.Supplied.of_outside {pass : Pass} {σ : Store} {task : Task} (hσ : σ.Matched)
    (hcall : ∀ r vs, task ≠ .invocation r vs) (n : Nat) :
    Supplied ⟨pass.outside, task, n, σ⟩ := by
  refine ⟨hσ, ?_, ?_⟩
  · intro f method declaring vs ht
    exact absurd ht (hcall _ vs)
  · intro method hmethod
    cases hmethod

theorem Pass.Begins.supplied {pass : Pass} {σ : Store} {m : Moment} (h : pass.Begins σ m)
    (hσ : σ.Matched) (htop : σ.HasTable pass.scope.top) : m.Supplied := by
  cases h with
  | value hb =>
    refine .of_outside (hσ.declareFields hb) ?_ _
    intro r vs ht
    cases ht
  | statements ss n =>
    refine .of_outside hσ ?_ n
    intro r vs ht
    cases ht
  | @main _ _ main τ hd hm =>
    have hτ : (τ.report .entering).Matched := (hσ.declareSource htop hd).of_table fun _ => rfl
    have hmain : τ.HasRoutine main := Store.hasRoutine_of_scopeFunction hm
    exact .of_found hτ hmain (Store.arity_of_scopeFunction hm) _
  | scopeCall hr n =>
    exact .of_found hσ (Store.hasRoutine_of_scopeFunction hr) (Store.arity_of_scopeFunction hr) n
  | memberCall hr n =>
    exact .of_found hσ (Store.hasRoutine_of_memberFunction hr)
      (Table.mem_of_routine? (σ.memberFunction_ok.mp hr)).2.2 n

/-- **So no run that a host begins leaves an argument over.** -/
theorem Pass.Begins.run_supplied {pass : Pass} {σ : Store} {m₀ m : Moment} (h : pass.Begins σ m₀)
    (hσ : σ.Attained) (htop : σ.HasTable pass.scope.top)
    (hrun : Relation.ReflTransGen Leads m₀ m) : m.Supplied := by
  induction hrun with
  | refl => exact h.supplied hσ.matched htop
  | tail _ hl ih => exact ih.leads hl

/-- The evaluation of a source with a new pass begins as that pass does. -/
theorem Source.Begins.begins {s : Source} {host : Host} {fuel : Nat} {σ : Store} {m : Moment}
    (h : s.Begins host fuel σ m) : (host.evaluator σ).1.Begins (host.evaluator σ).2 m := by
  cases h with
  | field _ _ hb => exact .value hb
  | main hd hm => exact .main hd hm

/-- In particular, no moment of the evaluation of a source does. -/
theorem Source.Reaches.supplied {s : Source} {host : Host} {fuel : Nat} {σ : Store} {m : Moment}
    (h : s.Reaches host fuel σ m) (hσ : σ.Attained) : m.Supplied := by
  obtain ⟨m₀, hbegins, hrun⟩ := h
  exact hbegins.begins.run_supplied (hσ.evaluator host) (host.evaluator_spec σ).top hrun

/-! ### Calls that pass the check -/

namespace Expr

variable {c : Context} {name : Name} {arguments : List Expr} {bound : Option Function}
variable {old t : Option Ty} {e : Expr}

/-- A call that passes the check is one of a function with as many parameters as there are
arguments, each of which takes its own argument. -/
theorem check_call_ok (h : (call name arguments bound old).check c = (e, .ok t)) :
    ∃ arguments' f, e = call name arguments' (some f) t ∧ arguments'.length = arguments.length ∧
      c.functionOf name arguments.length = .ok f ∧
      List.Forall₂ Ty.Takes f.parameterTypes (arguments'.map type?) := by
  have hbare := (call name arguments bound old).check_bare (c := c)
  rw [h] at hbare
  cases check_typed h with
  | @call _ arguments' types f has hf ht =>
    simp only [bare, call.injEq, and_true] at hbare
    obtain ⟨rfl, hbare⟩ := hbare
    have hlen : arguments'.length = arguments.length := length_eq_of_bareExprs hbare
    rw [← has.length_eq, hlen] at hf
    exact ⟨arguments', f, rfl, hlen, hf, has.types_eq ▸ ht⟩
  | _ => simp [bare] at hbare

/-- With a receiver the function has one parameter more, and the others take the arguments. -/
theorem check_memberCall_ok {receiver : Expr}
    (h : (memberCall receiver name arguments bound old).check c = (e, .ok t)) :
    ∃ receiver' arguments' f owner self rest,
      e = memberCall receiver' name arguments' (some f) t ∧ receiver'.type? = some owner ∧
      arguments'.length = arguments.length ∧
      c.memberFunctionOf owner name (arguments.length + 1) = .ok f ∧
      f.parameterTypes = self :: rest ∧ List.Forall₂ Ty.Takes rest (arguments'.map type?) := by
  have hbare := (memberCall receiver name arguments bound old).check_bare (c := c)
  rw [h] at hbare
  cases check_typed h with
  | @memberCall receiver' owner _ arguments' types f has _ hr hf ht =>
    simp only [bare, memberCall.injEq, and_true] at hbare
    obtain ⟨-, rfl, hbare⟩ := hbare
    have hlen : arguments'.length = arguments.length := length_eq_of_bareExprs hbare
    rw [← has.length_eq, hlen] at hf
    have harity := Context.arity_of_memberFunctionOf hf
    cases hparameters : f.parameterTypes with
    | nil => simp [hparameters] at harity
    | cons self rest =>
      rw [hparameters, List.drop_one, List.tail_cons] at ht
      exact ⟨receiver', arguments', f, owner, self, rest, rfl, hr.type?_eq, hlen, hf,
        hparameters, has.types_eq ▸ ht⟩
  | _ => simp [bare] at hbare

end Expr

/-- **No argument is dropped.** In every run that a host can begin, a method is called with as many
arguments as it has parameters; they are the values of the parameters in its first frame, and as
long as the method runs that frame begins with them.  In every place where a call passes the check,
its arguments are paired one by one with the parameter types of the function, without the first one
if there is a receiver, and each is of a type that the parameter takes. -/
theorem no_argument_dropped :
    (∀ {σ : Store} {pass : Pass} {m₀ m : Moment}, σ.Attained → σ.HasTable pass.scope.top →
      pass.Begins σ m₀ → Relation.ReflTransGen Leads m₀ m →
      (∀ f method declaring vs, m.task = .invocation ⟨f, some (.method method declaring)⟩ vs →
        vs.length = method.parameters.length ∧
        ∀ frame, Frame.declareAll [] (method.parameters.zip vs) = .ok frame →
          List.Forall₂ (fun name v => Frame.get? frame name = some v) method.parameters vs) ∧
      ∀ method, m.activation.method? = some method →
        ∃ frame, m.activation.locals.getLast? = some frame ∧
          method.parameters <+: frame.map Prod.fst) ∧
    ∀ (c : Context) (name : Name) (arguments : List Expr) (bound : Option Function)
      (old t : Option Ty) (e : Expr),
      ((Expr.call name arguments bound old).check c = (e, .ok t) →
        ∃ arguments' f, e = .call name arguments' (some f) t ∧
          arguments'.length = arguments.length ∧
          c.functionOf name arguments.length = .ok f ∧
          List.Forall₂ Ty.Takes f.parameterTypes (arguments'.map Expr.type?)) ∧
      ∀ receiver, (Expr.memberCall receiver name arguments bound old).check c = (e, .ok t) →
        ∃ receiver' arguments' f owner self rest,
          e = .memberCall receiver' name arguments' (some f) t ∧
          receiver'.type? = some owner ∧ arguments'.length = arguments.length ∧
          c.memberFunctionOf owner name (arguments.length + 1) = .ok f ∧
          f.parameterTypes = self :: rest ∧
          List.Forall₂ Ty.Takes rest (arguments'.map Expr.type?) := by
  refine ⟨?_, ?_⟩
  · intro σ pass m₀ m hσ htop hbegins hrun
    have hm := hbegins.run_supplied hσ htop hrun
    refine ⟨?_, ?_⟩
    · intro f method declaring vs ht
      have hlen := hm.arguments f method declaring vs ht
      exact ⟨hlen, fun frame hframe => Frame.forall₂_declareAll hframe hlen⟩
    · intro method hmethod
      exact (hm.frame method hmethod).exists_frame
  · intro c name arguments bound old t e
    exact ⟨fun h => Expr.check_call_ok h, fun receiver h => Expr.check_memberCall_ok h⟩

/-- A method that answers its argument. -/
def Method.echo : Method :=
  ⟨"echo", ["n"], ["Integer"], "Integer", [.returning (.access "n" none none)], none⟩

/-- A call of the method. -/
def Expr.echoing : Expr :=
  .call "echo" [.literal (.integer 3) none] none none

/-- A source whose entry point calls it. -/
def Source.echoing : Source where
  fields := []
  methods := [.method .echo, .method ⟨"main", [], [], "Integer", [.returning .echoing], none⟩]

/-- A pass that has evaluated the source. -/
def Pass.echoing : Pass :=
  (Host.none.evaluator .initial).1

/-- The store that the pass has left. -/
def Store.echoing : Store :=
  (Pass.echoing.evaluate 9 .echoing).after (Host.none.evaluator .initial).2

/-- A place where there is an Integer `x`, and Integers have a function `plus`. -/
def Context.summing : Context where
  store := (Host.none.checker .initial).2.declare 14 (.routine "plus"
    [some Builtin.integer.type, some Builtin.integer.type] (some Builtin.integer.type) none none)
  pass := (Host.none.checker .initial).1
  blocks := [[⟨"x", "x", some Builtin.integer.type, .block 0⟩]]
  returns? := none

/-- The call leads to the method with one argument, and on to its body with one variable; `print`
takes the argument, and so does `plus` beside its receiver. -/
theorem no_argument_dropped_echo :
    (∃ called entered, Relation.ReflTransGen Leads called entered ∧
      called.task = .invocation (Pass.echoing.ownRoutine .echo) [.integer 3] ∧
      [Value.integer 3].length = Method.echo.parameters.length ∧
      entered.task = .stmts Method.echo.body ∧
      ∃ frame, entered.activation.locals.getLast? = some frame ∧
        Method.echo.parameters <+: frame.map Prod.fst) ∧
    (∃ f : Function, Context.summing.functionOf "print" 1 = .ok f ∧
      ∃ types, types.length = 1 ∧ List.Forall₂ Ty.Takes f.parameterTypes types) ∧
    ∃ (f : Function) (self : Option Ty) (rest types : List (Option Ty)),
      f.parameterTypes = self :: rest ∧ types.length = 1 ∧ List.Forall₂ Ty.Takes rest types := by
  obtain ⟨hruns, hchecks⟩ := no_argument_dropped
  refine ⟨?_, ?_, ?_⟩
  · have hfresh : (Host.none.evaluator .initial).2.HasTable Pass.echoing.scope.top := by decide
    have hσ : Store.echoing.Attained :=
      .evaluate (.evaluator (.opened .memory) .none) hfresh .echoing 9
    have htop : Store.echoing.HasTable Pass.echoing.scope.top := by decide +kernel
    have hbegins : Pass.echoing.Begins .echoing
        ⟨Pass.echoing.outside, .expr .echoing, 5, .echoing⟩ :=
      .value (show [].forM (Pass.echoing.declareFieldPlace 0) _ = _ from rfl)
    have hcall : Leads ⟨Pass.echoing.outside, .expr .echoing, 5, .echoing⟩
        ⟨Pass.echoing.outside, .invocation (Pass.echoing.ownRoutine .echo) [.integer 3], 4,
          .echoing⟩ := .callInvoke rfl rfl
    have hbody : Leads ⟨Pass.echoing.outside,
          .invocation (Pass.echoing.ownRoutine .echo) [.integer 3], 4, .echoing⟩
        ⟨⟨Pass.echoing, some .echo, [[("n", .integer 3)]], [Method.echo.parameterVariables]⟩,
          .stmts Method.echo.body, 3, .echoing⟩ := .body rfl
    have hcalled := Relation.ReflTransGen.single hcall
    exact ⟨_, _, .single hbody, rfl,
      ((hruns hσ htop hbegins hcalled).1 _ _ _ _ rfl).1, rfl,
      (hruns hσ htop hbegins (hcalled.tail hbody)).2 _ rfl⟩
  · obtain ⟨types, f, -, hlen, hf, htakes⟩ := (hchecks .summing "print"
      [.literal (.integer 3) none] none none _ _).1 rfl
    have hone : (types.map Expr.type?).length = 1 := by simpa using hlen
    exact ⟨f, hf, _, hone, htakes⟩
  · obtain ⟨_, types, f, _, self, rest, -, -, hlen, -, hself, htakes⟩ := (hchecks .summing "plus"
      [.literal (.integer 3) none] none none _ _).2 (.access "x" none none) rfl
    have hone : (types.map Expr.type?).length = 1 := by simpa using hlen
    exact ⟨f, self, rest, _, hself, hone, htakes⟩

end Parlance
