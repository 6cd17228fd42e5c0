/-
Where the moments of an accepted source are.

A run has two parts.  While the fields are declared only their values are evaluated, outside of all
methods, and each has the fields before it in scope.  Once everything is declared methods run, and
they have all fields in scope.  In both parts the tables have the same variables throughout, for
nothing that runs declares one there, and each moment of the evaluator's own pass is located: it is
outside of all methods, or in a place of a method that the check has found in order, with the
frames in line with the text.

What the functions of the host run, if it is a method, works in another scope and is of no concern.
-/
import Parlance.Proofs.Calls.Agreement
import Parlance.Proofs.Variables.Fields
import Parlance.Proofs.Variables.Placed

namespace Parlance

/-! ### What every step keeps -/

section Steps

variable {m m' : Moment}

/-- A function is called with as many arguments as it takes. -/
theorem Leads.arity (hl : Leads m m') {r : Routine} {vs : List Value}
    (ht : m'.task = .invocation r vs) : r.function.arity = vs.length := by
  cases hl with
  | callInvoke _ hr =>
    cases ht
    exact Store.arity_of_scopeFunction hr
  | memberCallInvoke _ _ _ hr =>
    cases ht
    exact (Table.mem_of_routine? ((Store.memberFunction_ok _).mp hr)).2.2
  | _ => cases ht

/-- Statements are executed where there is a frame to declare in. -/
theorem Leads.frame (hl : Leads m m') (hne : ∀ ss, m.task = .stmts ss → m.activation.locals ≠ [])
    (ss : List Stmt) (ht : m'.task = .stmts ss) : m'.activation.locals ≠ [] := by
  cases hl with
  | body _ => exact List.cons_ne_nil _ _
  | inside => exact List.cons_ne_nil _ _
  | rest hs => exact (Locals.eq_nil_iff_of_names ((keepsAt _).exec _ _ _ hs).2).not.mpr (hne _ rfl)
  | _ => cases ht

/-- So no step declares a variable in a table. -/
theorem Leads.vars (hl : Leads m m')
    (hne : ∀ ss, m.task = .stmts ss → m.activation.locals ≠ []) :
    m'.store.vars = m.store.vars :=
  (hl.changes.mono fun ⟨ss, ht, hnil⟩ => hne ss ht hnil).vars

end Steps

/-! ### Located moments -/

/-- A place of the check where the tables have these variables. -/
structure Context.Knows (c : Context) (checker : Pass) (V : TableId → List Variable) : Prop where
  pass : c.pass = checker
  vars : c.store.vars = V

/-- A moment of the pass `own` is outside of all methods, where expressions are in order, or in a
place of a method that the check has found in order; in both cases the check knew `V`. -/
inductive Moment.Located (checker own : Pass) (V : TableId → List Variable) (m : Moment)
    (q : Place) : Prop
  | elsewhere (h : m.activation.pass ≠ own)
  | outside {c : Context} (hc : c.Knows checker V) (hb : c.blocks = [])
      (hm : m.activation.method? = none) (hl : m.activation.locals = []) (ht : m.task.Typed c)
  | inside {method : Method} {c : Context} (hc : c.Knows checker V)
      (hm : m.activation.method? = some method) (hchecked : method.Checked c)
      (h : m.Inside method c q)

/-- A moment of a run in which the tables of the check have the variables `V` and those of the
evaluation `W`. -/
structure Moment.Proceeds (ρ : Store) (outside : List Node) (checker own : Pass)
    (V W : TableId → List Variable) (m : Moment) (q : Place) : Prop where
  within : m.Within ρ outside
  vars : m.store.vars = W
  arity : ∀ r vs, m.task = .invocation r vs → r.function.arity = vs.length
  frame : ∀ ss, m.task = .stmts ss → m.activation.locals ≠ []
  located : m.Located checker own V q

/-- The methods of the store that run in the pass `own` are some of these, under their own keys,
and the check has found them in order when it knew `V`. -/
def Store.HasChecked (ρ : Store) (checker own : Pass) (V : TableId → List Variable)
    (methods : List MethodPlace) : Prop :=
  ∀ f method, ρ.HasRoutine ⟨f, some (.method method own)⟩ →
    .method method ∈ methods ∧ method.HasKey f ∧ ∃ c : Context, c.Knows checker V ∧ method.Checked c

namespace Moment

variable {ρ : Store} {outside : List Node} {checker own : Pass} {V W : TableId → List Variable}
variable {m m' : Moment} {q q' : Place}

/-- The body of a method begins with its parameters in one frame. -/
theorem Inside.of_body {method : Method} {c : Context} (hchecked : method.Checked c)
    {vs : List Value} {frame : Frame} {n : Nat} {σ : Store}
    (hlen : method.parameters.length = vs.length)
    (hf : Frame.declareAll [] (method.parameters.zip vs) = .ok frame) :
    Inside method c ⟨⟨own, some method, [frame], [method.parameterVariables]⟩, .stmts method.body,
      n, σ⟩ (.start method) := by
  refine .here rfl ⟨rfl, rfl, ?_⟩ (.stmts rfl)
  rw [Frame.declareAll_ok hf, List.nil_append]
  simp only [Locals.names, List.map_cons, List.map_nil, hchecked.names]
  rw [List.map_fst_zip (Nat.le_of_eq hlen)]

theorem Located.moves (h : m.Located checker own V q) (hcall : ∀ r vs, m.task ≠ .invocation r vs)
    (hm : Moves (m, q) (m', q')) : m'.Located checker own V q' := by
  have hsame := Leads.same_method hm.leads hcall
  cases h with
  | elsewhere h => exact .elsewhere (hsame.1 ▸ h)
  | inside hc hmethod hchecked h =>
    exact .inside hc (hsame.2.trans hmethod) hchecked (h.moves hchecked hcall hm)
  | @outside c hc hb hmethod hl ht =>
    obtain ⟨a, task, n, σ⟩ := m
    have hleads : m'.activation = a ∧ m'.task.Typed c := by
      cases ht with
      | expr he => exact he.leads hm.leads
      | exprs hes => exact hes.leads hm.leads
      | invocation => exact absurd rfl (hcall _ _)
    obtain ⟨rfl, ht'⟩ := hleads
    exact .outside hc hb hmethod hl ht'

/-- **Every step of a run leads from located moments to located moments.** -/
theorem Proceeds.moves (h : m.Proceeds ρ outside checker own V W q) {methods : List MethodPlace}
    (hρ : ρ.HasChecked checker own V methods) (hm : Moves (m, q) (m', q')) :
    m'.Proceeds ρ outside checker own V W q' := by
  refine ⟨h.within.leads hm.leads, (Leads.vars hm.leads h.frame).trans h.vars,
    fun r vs => Leads.arity hm.leads, Leads.frame hm.leads h.frame, ?_⟩
  by_cases hcall : ∃ r vs, m.task = .invocation r vs
  · obtain ⟨r, vs, ht⟩ := hcall
    obtain ⟨a, task, n, σ⟩ := m
    cases ht
    cases hm with
    | stay hl hstays =>
      cases hl
      cases hstays
    | @body _ _ _ f method pass _ frame _ hf =>
      by_cases hpass : pass = own
      · subst hpass
        obtain ⟨-, hkey, c, hc, hchecked⟩ := hρ f method (h.within.routine _ rfl)
        have hlen := hkey.2.symm.trans (h.arity _ _ rfl)
        exact .inside hc rfl hchecked (.of_body hchecked hlen hf)
      · exact .elsewhere hpass
  · exact h.located.moves (fun r vs ht => hcall ⟨r, vs, ht⟩) hm

end Moment

/-! ### Runs of an accepted source -/

namespace Source

variable {s : Source} {host : Host} {σ τ : Store} {fuel : Nat}

/-- The moment belongs to a part of the run in which both passes have declared the same fields, and
proceeds in it as the check has foreseen. -/
def Follows (tree : Source) (host : Host) (fuel : Nat) (σ τ : Store) (m : Moment) (q : Place) :
    Prop :=
  ∃ ρ outside V W, tree.Facing host fuel σ τ V W ∧
    ρ.HasChecked (host.checker σ).1 (host.evaluator τ).1 V tree.methods ∧
    m.Proceeds ρ outside (host.checker σ).1 (host.evaluator τ).1 V W q

/-- The value of a field is evaluated with the fields before it declared. -/
theorem follows_field {tree : Source} {before after : List FieldPlace} {p : FieldPlace} {e : Expr}
    {σ₁ ρ : Store} (hp : host.Presents σ τ) (hτ : τ.Sound)
    (hfields : InOrder (host.checker σ).1.FieldTyped (host.checker σ).2 s.fields tree.fields σ₁)
    (hs : tree.fields = before ++ p :: after) (he : p.initial? = some e)
    (hb : before.forM ((host.evaluator τ).1.declareFieldPlace fuel) (host.evaluator τ).2
      = .ok () ρ) :
    tree.Follows host fuel σ τ ⟨(host.evaluator τ).1.outside, .expr e, fuel, ρ⟩ .outside := by
  obtain ⟨σ', _, _, _, _, hbefore, hplace, _⟩ := hfields.split hs
  obtain ⟨v, hv⟩ := hplace.adds
  obtain ⟨f, hf, -, -, hdecl⟩ := hv.bound
  have hvalue : f.value = some e := by rwa [FieldPlace.initial?, hf] at he
  rw [hvalue] at hdecl
  obtain ⟨t, ht⟩ := hdecl.value_typed
  have hwithin : Moment.Within (host.evaluator τ).2 e.walk
      ⟨(host.evaluator τ).1.outside, .expr e, fuel, ρ⟩ :=
    .of_outside (stable_declareFields _ _ _ hb) (List.Subset.refl _) fun _ ht => by cases ht
  have hfacing := hp.facing hfields hs hbefore hb
  have hlocated : Moment.Located (host.checker σ).1 (host.evaluator τ).1 σ'.vars
      ⟨(host.evaluator τ).1.outside, .expr e, fuel, ρ⟩ .outside :=
    .outside ⟨rfl, rfl⟩ rfl rfl rfl (.expr ht)
  refine ⟨(host.evaluator τ).2, e.walk, σ'.vars, ρ.vars, hfacing, ?_,
    hwithin, rfl, fun _ _ ht => ?_, fun _ ht => ?_, hlocated⟩
  · -- by then no method of the source is bound
    intro f m hr
    cases hτ.mem_of_method (.of_same (.refl _)) hr
  · cases ht
  · cases ht

/-- Methods run with everything declared. -/
theorem follows_main {tree : Source} {σ₁ σ₂ ρ : Store} {main : Routine}
    (hp : host.Presents σ τ) (hτ : τ.Sound)
    (htyped : (host.checker σ).1.SourceTyped s tree (host.checker σ).2 σ₁ σ₂)
    (hd : (host.evaluator τ).1.declareSource fuel tree (host.evaluator τ).2 = .ok () ρ)
    (hm : ρ.scopeFunction (host.evaluator τ).1.scope "main" 0 = .ok main) :
    tree.Follows host fuel σ τ
      ⟨(host.evaluator τ).1.outside, .invocation main [], fuel, ρ.report .entering⟩ .outside := by
  obtain ⟨_, ρ₁, hfields, hmethods⟩ := Eval.bind_ok.mp hd
  have htop := (stable_declareFields _ _ _ hfields).hasTable (host.evaluator_spec τ).top
  have hvars : ρ.vars = ρ₁.vars := Pass.declareMethods_vars hmethods htop
  have hwithin : Moment.Within ρ [] ⟨(host.evaluator τ).1.outside, .invocation main [], fuel,
      ρ.report .entering⟩ := by
    refine .of_outside ⟨rfl, fun _ => rfl⟩ (List.nil_subset _) ?_
    intro r hr
    cases hr
    exact Store.hasRoutine_of_scopeFunction hm
  have harity : main.function.arity = 0 := Store.arity_of_scopeFunction hm
  have hlocated : Moment.Located (host.checker σ).1 (host.evaluator τ).1 σ₁.vars
      ⟨(host.evaluator τ).1.outside, .invocation main [], fuel, ρ.report .entering⟩ .outside :=
    .outside (c := (host.checker σ).1.context σ₁) ⟨rfl, rfl⟩ rfl rfl rfl .invocation
  refine ⟨ρ, [], σ₁.vars, ρ₁.vars,
    hp.facing htyped.fields (List.append_nil _).symm htyped.fields hfields, ?_, hwithin, hvars,
    fun _ _ ht => ?_, fun _ ht => ?_, hlocated⟩
  · intro f m hr
    have hall : ∀ p ∈ tree.methods, ∃ m, p = .method m := fun p hp =>
      htyped.methods.exists_method hp
    obtain ⟨hmem, hkey⟩ := routine_of_declareSource hd hτ hall hr
    obtain ⟨before, after, he⟩ := List.append_of_mem hmem
    obtain ⟨τ₁, τ₂, _, _, _, hbefore, hplace, _⟩ := htyped.methods.split he
    obtain ⟨m', f', hm', ha⟩ := hplace.adds
    cases hm'
    obtain ⟨c, hpass, hstore, hchecked⟩ := ha.checked
    refine ⟨hmem, hkey, c, ⟨hpass, ?_⟩, hchecked⟩
    obtain ⟨record, rfl⟩ := ha.store
    rw [hstore, ← hbefore.methods_vars]
    exact Store.vars_addRoutine _ _ _
  · cases ht
    exact harity
  · cases ht

/-- **Every moment of a run of an accepted source is as the check has foreseen it.** -/
theorem Visits.follows (h : (s.analyze host σ).verdict = .ok ()) (hp : host.Presents σ τ)
    (hτ : τ.Sound) {m : Moment} {q : Place}
    (hm : (s.analyze host σ).tree.Visits host fuel τ m q) :
    (s.analyze host σ).tree.Follows host fuel σ τ m q := by
  obtain ⟨σ₁, σ₂, _, htyped, -⟩ := Pass.check_typed h
  refine hm.of_steps (fun m₀ hb => ?_) fun hmove hf => ?_
  · cases hb with
    | field hs he hb => exact follows_field hp hτ htyped.fields hs he hb
    | main hd hm => exact follows_main hp hτ htyped hd hm
  · obtain ⟨ρ, outside, V, W, hfacing, hρ, hproceeds⟩ := hf
    exact ⟨ρ, outside, V, W, hfacing, hρ, hproceeds.moves hρ hmove⟩

end Source

end Parlance
