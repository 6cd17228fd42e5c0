/-
Variables and their annotations.

The check annotates an access with the variable that the name means where it stands, and the
evaluation looks for the name anew each time it comes by, in frames and tables of its own.  What it
finds always belongs to the annotation: the cell that the same node has made in the running method,
the variable that it has made for the same field, or the same variable of the host.
-/
import Parlance.Proofs.Variables.Cells
import Parlance.Proofs.Variables.Located

namespace Parlance

/-! ### Names in a place of the check -/

/-- An access that a method looks up is part of the statement in its place, and is in order
there. -/
theorem Moment.Inside.access {method : Method} {c : Context} {m : Moment} {q : Place}
    {name : Name} {bound : Option Variable} {t : Option Ty} (h : m.Inside method c q)
    (hchecked : method.Checked c)
    (ht : m.task = .expr (.access name bound t) ∨
      ∃ value, m.task = .stmt (.assignment (.access name bound t) value)) :
    ∃ s ss u, q.path.rest? method.body = some (s :: ss) ∧ m.task.nodes ⊆ s.walk ∧
      m.activation.Fits method q ∧
      (Expr.access name bound t).Typed (method.context c q.path) u := by
  cases h with
  | block _ _ => rcases ht with ht | ⟨_, ht⟩ <;> cases ht
  | here _ hf hd =>
    rcases ht with ht | ⟨value, ht⟩
    · cases hd with
      | typed hs hn h =>
        cases ht
        cases h with
        | expr he => exact ⟨_, _, _, hs, hn, hf, he⟩
      | _ => cases ht
    · cases hd with
      | typed _ _ h =>
        cases ht
        cases h
      | stmt hs =>
        cases ht
        cases hchecked.stmt hs with
        | assignment _ he _ _ => exact ⟨_, _, _, hs, List.Subset.refl _, hf, he⟩
      | _ => cases ht

theorem Store.find?_vars {σ : Store} {id : TableId} {name : Name} {s : Slot}
    (h : (σ.table id).slot? name = some s) :
    (σ.vars id).find? (fun v => v.name == name) = some s.var := by
  rw [vars, List.find?_map]
  exact Option.map_eq_some_iff.mpr ⟨s, h, rfl⟩

/-! ### What is found -/

namespace Source

/-- At a moment of the evaluation and in that place of the text, the name finds what belongs to the
variable `v` of the check.

  * A cell of the running method, made by the node that makes `v`. Of the nodes that are in scope
    in the text, at the statement that is being executed, it is the only one to make a variable that
    is described as `v` is.
  * No cell, and then in the scope the variable that the evaluation has made for the field that is
    annotated with `v`.
  * No cell, and then in the scope the variable `v` itself, in that table of the host in which the
    check has found it under the name. -/
inductive Finds (tree : Source) (host : Host) (fuel : Nat) (σ τ : Store) (m : Moment) (q : Place)
    (name : Name) (v : Variable) : Prop
  | cell {method : Method} {stmt : Stmt} {c : Nat × Nat} {maker : Maker}
      (hmem : .method method ∈ tree.methods) (hm : m.activation.method? = some method)
      (hstmt : q.path.stmt? method.body = some stmt) (htask : m.task.nodes ⊆ stmt.walk)
      (hscope : q.makers = method.makers q.path)
      (hc : m.activation.locals.cell? name = some c) (hmade : item? q.makers c = some maker)
      (hv : maker.made? method = some v)
      (hu : ∀ other ∈ q.makers.flatten, other.made? method = some v → other = maker)
  | field {s : Slot} (hc : m.activation.locals.cell? name = none)
      (hs : m.store.scopeVariable m.activation.pass.scope name = .ok s)
      (hv : tree.SameField host fuel τ v s.var)
  | host {s : Slot} {id : TableId} (hc : m.activation.locals.cell? name = none)
      (hs : m.store.scopeVariable m.activation.pass.scope name = .ok s) (hid : id ∈ host.tables)
      (hv : (σ.vars id).find? (fun w => w.name == name) = some v)
      (hr : (m.store.table id).slot? name = some s) (he : s.var = v)

variable {s : Source} {host : Host} {σ τ : Store} {fuel : Nat} {m : Moment} {q : Place}

/-- Outside of the cells a name finds what both scopes have. -/
theorem finds_scope {tree : Source} {c : Context} {name : Name} {s : Slot}
    (hfacing : tree.Facing host fuel σ τ c.store.vars m.store.vars)
    (hc : m.activation.locals.cell? name = none) (hpass : m.activation.pass = (host.evaluator τ).1)
    (hs : c.store.scopeVariable (host.checker σ).1.scope name = .ok s) :
    tree.Finds host fuel σ τ m q name s.var := by
  obtain ⟨r, hr, hfield | ⟨id, hid, hs', hr', hvar⟩⟩ := hfacing.scopeVariable hs
  · exact .field hc (hpass ▸ hr) hfield
  · have hv := Store.find?_vars hs'
    rw [hfacing.checked id hid] at hv
    exact .host hc (hpass ▸ hr) hid hv hr' hvar

/-- In a place of a method, a name that means a variable of the blocks finds its cell. -/
theorem finds_cell {tree : Source} {method : Method} {c : Context} {stmt : Stmt} {ss : List Stmt}
    {name : Name} {v : Variable} (hmem : .method method ∈ tree.methods)
    (hm : m.activation.method? = some method) (hchecked : method.Checked c)
    (hr : q.path.rest? method.body = some (stmt :: ss)) (hn : m.task.nodes ⊆ stmt.walk)
    (hf : m.activation.Fits method q)
    (hv : (method.blocks q.path).find? name = some v) :
    tree.Finds host fuel σ τ m q name v := by
  obtain ⟨cell, hcell, hitem⟩ := Locals.exists_cell (hf.blocks ▸ hf.names) hv
  have hmakers : (item? q.makers cell).map (Maker.made? method) = some (some v) := by
    rw [← item?_map, hf.makers, hchecked.map_makers hr, item?_map, hitem, Option.map_some]
  obtain ⟨maker, hmaker, hmade⟩ := Option.map_eq_some_iff.mp hmakers
  refine .cell hmem hm (Path.stmt?_of_rest? hr) hn hf.makers hcell hmaker hmade
    fun other ho hother => ?_
  have hin := mem_flatten_of_item? hmaker
  rw [hf.makers] at ho hin
  exact hchecked.maker_unique hr ho hin (hother.trans hmade.symm)

/-- An access that is in order where the moment is finds what it is annotated with. -/
theorem Follows.finds {tree : Source} (h : tree.Follows host fuel σ τ m q)
    (hpass : m.activation.pass = (host.evaluator τ).1) {name : Name} {bound : Option Variable}
    {t : Option Ty}
    (ht : m.task = .expr (.access name bound t) ∨
      ∃ value, m.task = .stmt (.assignment (.access name bound t) value)) :
    ∃ v, bound = some v ∧ tree.Finds host fuel σ τ m q name v := by
  obtain ⟨ρ, outside, _, _, hfacing, hρ, hproceeds⟩ := h
  obtain ⟨hwithin, rfl, -, -, hlocated⟩ := hproceeds
  cases hlocated with
  | elsewhere h => exact absurd hpass h
  | @outside c hc hb _ hl htask =>
    obtain ⟨hcpass, rfl⟩ := hc
    rcases ht with ht | ⟨value, ht⟩ <;> rw [ht] at htask <;> cases htask
    next he =>
      cases he with
      | access hv _ =>
        rw [Context.variableOf_ok, hb] at hv
        obtain hv | ⟨-, s, hs, rfl⟩ := hv
        · cases hv
        · exact ⟨_, rfl, finds_scope hfacing (by rw [hl]; rfl) hpass (hcpass ▸ hs)⟩
  | @inside method c hc hm hchecked h =>
    obtain ⟨hcpass, rfl⟩ := hc
    obtain ⟨stmt, ss, u, hr, hn, hf, he⟩ := h.access hchecked ht
    obtain ⟨f, hroutine⟩ := hwithin.origin method hm
    have hmem := (hρ f method (hpass ▸ hroutine)).1
    cases he with
    | access hv _ =>
      obtain hblock | ⟨hblock, s, hs, rfl⟩ := Context.variableOf_ok.mp hv
      · exact ⟨_, rfl, finds_cell hmem hm hchecked hr hn hf hblock⟩
      · have hnone := Locals.cell?_eq_none (hf.blocks ▸ hf.names) hblock
        exact ⟨_, rfl, finds_scope hfacing hnone hpass (hcpass ▸ hs)⟩

/-- **Lookups come to what accesses are annotated with.** In every run of an accepted source inside
the scope of a host, and each time that an access without a receiver is evaluated or assigned in
code of the source, the annotation is there, and what the name finds belongs to it: the cell that
the parameter, the declaration or the loop which makes the annotated variable has made for the
present activation of its block, the variable made for the field which is annotated with it, or that
very variable of the host. -/
theorem lookup_agrees (h : (s.analyze host σ).verdict = .ok ()) (hp : host.Presents σ τ)
    (hτ : τ.Sound) (hm : (s.analyze host σ).tree.Visits host fuel τ m q)
    (hpass : m.activation.pass = (host.evaluator τ).1) {name : Name} {bound : Option Variable}
    {t : Option Ty}
    (ht : m.task = .expr (.access name bound t) ∨
      ∃ value, m.task = .stmt (.assignment (.access name bound t) value)) :
    ∃ v, bound = some v ∧ (s.analyze host σ).tree.Finds host fuel σ τ m q name v :=
  (hm.follows h hp hτ).finds hpass ht

/-! ### A declaration that hides a field -/

/-- A field `x`, and an entry point with a branch that declares another `x` and answers it. -/
def shadowing : Source where
  fields := [.field ⟨"x", some "Integer", some (.literal (.integer 1) none), none⟩]
  methods :=
    [.method ⟨"main", [], [], some "Integer",
      [.conditional (.literal (.boolean true) none)
        [.declaration "x" (some "Integer") (some (.literal (.integer 2) none)) none,
          .returning (.access "x" none none)] [],
        .returning (.access "x" none none)], none⟩]

/-- The call of an entry point that begins with a branch goes on to what that branch returns after
a declaration. -/
theorem visits_branch {tree : Source} {ρ : Store} {method : Method} {name : Name}
    {typeName : Option Text} {x : Value} {v : Variable} {e : Expr} {t u : Option Ty}
    {ss ss' : List Stmt}
    (hd : (host.evaluator τ).1.declareSource (fuel + 7) tree (host.evaluator τ).2 = .ok () ρ)
    (hm : tree.methods[0]?.bind MethodPlace.method? = some method)
    (hname : method.name = ("main" : Name)) (hp : method.parameters = [])
    (hb : method.body = .conditional (.literal (.boolean true) t)
      [.declaration name typeName (some (.literal x u)) (some v), .returning e] ss' :: ss) :
    tree.Visits host (fuel + 7) τ
      ⟨⟨(host.evaluator τ).1, some method, [[(name, x)], []], [[v], method.parameterVariables]⟩,
        .expr e, fuel, ρ.report .entering⟩
      ⟨.next (.inThen .start), [[.stmt (.inThen .start)], method.parameterMakers]⟩ := by
  obtain ⟨f, hmain⟩ := main_of_declareSource hd hm hname hp
  have hbody : Moves (⟨(host.evaluator τ).1.outside,
      .invocation ⟨f, some (.method method (host.evaluator τ).1)⟩ [], fuel + 7,
        ρ.report .entering⟩, .outside)
      (⟨⟨(host.evaluator τ).1, some method, [[]], [method.parameterVariables]⟩,
        .stmts method.body, fuel + 6, ρ.report .entering⟩, .start method) :=
    .body (by rw [hp]; rfl)
  rw [hb] at hbody
  exact ⟨_, .main hd hmain, (((((((Relation.ReflTransGen.single hbody).tail
    (.stay .first trivial)).tail (.branch (b := true) rfl)).tail .inside).tail (.rest rfl)).tail
    (.stay .first trivial)).tail (.stay .returning trivial))⟩

/-- The tree that the check leaves behind in the store that the host has built. -/
def shadowingTree : Source :=
  (shadowing.analyze .offering .offered).tree

/-- The entry point of that tree. -/
def shadowingMethod : Method :=
  (shadowingTree.methods[0]?.bind MethodPlace.method?).getD default

/-- The variable `x` that is in scope after the declaration in the first branch. -/
def shadowingVariable : Variable :=
  ((shadowingMethod.blocks (.next (.inThen .start))).find? "x").getD default

/-- The store in which the tree has been declared. -/
def shadowingStore : Store :=
  Eval.after ((Host.offering.evaluator .offered).1.declareSource 7 shadowingTree)
    (Host.offering.evaluator .offered).2

/-- The moment at which the branch is about to look up `x`. -/
def shadowingMoment : Moment where
  activation := ⟨(Host.offering.evaluator .offered).1, some shadowingMethod,
    [[("x", .integer 2)], []], [[shadowingVariable], shadowingMethod.parameterVariables]⟩
  task := .expr (.access "x" (some shadowingVariable) shadowingVariable.type)
  fuel := 0
  store := shadowingStore.report .entering

/-- Where that is: after the declaration in the first branch. -/
def shadowingPlace : Place :=
  ⟨.next (.inThen .start), [[.stmt (.inThen .start)], shadowingMethod.parameterMakers]⟩

/-- Inside the branch the declaration hides the field. -/
theorem lookup_agrees_shadowing :
    (shadowing.analyze .offering .offered).verdict = .ok () ∧
    Host.offering.Presents .offered .offered ∧ Store.offered.Sound ∧
    shadowingTree.Visits .offering 7 .offered shadowingMoment shadowingPlace ∧
    ∃ v, some shadowingVariable = some v ∧
      shadowingTree.Finds .offering 7 .offered .offered shadowingMoment shadowingPlace "x" v := by
  have h : (shadowing.analyze .offering .offered).verdict = .ok () := by decide +kernel
  have hp : Host.offering.Presents .offered .offered :=
    ⟨by decide +kernel, by decide +kernel, fun _ _ => rfl⟩
  have hd : ((Host.offering.evaluator .offered).1.declareSource 7 shadowingTree).answer?
      (Host.offering.evaluator .offered).2 = some () := by decide +kernel
  have hmain : shadowingTree.methods[0]?.bind MethodPlace.method? = some shadowingMethod := by
    have hsome : (shadowingTree.methods[0]?.bind MethodPlace.method?).isSome = true := by
      decide +kernel
    obtain ⟨m, hm⟩ := Option.isSome_iff_exists.mp hsome
    rw [shadowingMethod, hm, Option.getD_some]
  have hbody : shadowingMethod.body
      = .conditional (.literal (.boolean true) (some Builtin.boolean.type))
        [.declaration "x" (some "Integer")
            (some (.literal (.integer 2) (some Builtin.integer.type))) (some shadowingVariable),
          .returning (.access "x" (some shadowingVariable) shadowingVariable.type)] []
        :: shadowingMethod.body.drop 1 := by cbv
  have hm : shadowingTree.Visits .offering 7 .offered shadowingMoment shadowingPlace :=
    visits_branch (Eval.eq_of_answer? hd) hmain (by decide +kernel) (by decide +kernel) hbody
  have hpass : shadowingMoment.activation.pass = (Host.offering.evaluator .offered).1 := by
    simp only [shadowingMoment]
  have htask : shadowingMoment.task
      = .expr (.access "x" (some shadowingVariable) shadowingVariable.type) := by
    simp only [shadowingMoment]
  exact ⟨h, hp, Store.sound_offered, hm,
    lookup_agrees h hp Store.sound_offered hm hpass (.inl htask)⟩

end Source

end Parlance
