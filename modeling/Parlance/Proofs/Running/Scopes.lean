/-
Scopes do not leak.

A statement is executed inside frames, tables and the frames of the methods that are waiting for it.
However it ends, all of these have the variables and the functions that they had, except that a
declaration which completes adds its own variable: to the innermost frame, or to the own table of
the pass where there is no frame.

Frames are part of what a statement comes to only if it completes.  If it returns or stops, they are
dropped with the activation, so what can be said of them is said of the moments on the way: of every
moment inside the statement, at any depth of blocks and calls.  The frames alive at a moment are
those of its activation and, below them, those of the activations that wait for it.
-/
import Parlance.Proofs.Running.Added
import Parlance.Proofs.Running.Moment

namespace Parlance

/-! ### Frames that are alive -/

/-- A moment, and the frames of the activations that wait for it, those of the nearest first. -/
structure Nested where
  moment : Moment
  waiting : List Locals

namespace Nested

/-- The names in all frames that are alive, the innermost frame first. -/
def alive (n : Nested) : List (List Name) :=
  (n.moment.activation.locals ++ n.waiting.flatten).names

/-- The first moment leads to the second; if it is the call of a function, the caller waits. -/
inductive Leads : Nested → Nested → Prop
  | inside {m m' : Moment} {waiting : List Locals} (hl : Parlance.Leads m m')
      (h : ∀ r vs, m.task ≠ .invocation r vs) : Leads ⟨m, waiting⟩ ⟨m', waiting⟩
  | call {m m' : Moment} {waiting : List Locals} (hl : Parlance.Leads m m') {r : Routine}
      {vs : List Value} (h : m.task = .invocation r vs) :
      Leads ⟨m, waiting⟩ ⟨m', m.activation.locals :: waiting⟩

/-- The frames that what is to be done cannot declare anything in: statements one after the other
declare in the innermost one. -/
def kept (n : Nested) : List (List Name) :=
  match n.moment.task with
  | .stmts _ => n.alive.tail
  | _ => n.alive

theorem kept_suffix (n : Nested) : n.kept <:+ n.alive := by
  unfold kept
  split
  · exact List.tail_suffix _
  · exact List.suffix_refl _

theorem names_append (locals more : Locals) :
    (locals ++ more).names = locals.names ++ more.names :=
  List.map_append

theorem tail_grow_append {α : Type} (o : Option α) (blocks more : List (List α)) :
    (grow o blocks ++ more).tail = (blocks ++ more).tail := by
  cases o <;> cases blocks <;> rfl

/-- **No step takes a frame away or adds to one that is to be kept.** -/
theorem Leads.kept {n n' : Nested} (h : Leads n n') : n.kept <:+ n'.kept := by
  cases h with
  | @call m m' waiting hl r vs h =>
    obtain ⟨a, task, fuel, σ⟩ := m
    cases h
    cases hl with
    | body hf => exact List.suffix_refl _
  | @inside m m' waiting hl h =>
    have same {a : Activation} {locals : Locals} (h : locals.names = a.locals.names) :
        (a.locals ++ waiting.flatten).names <:+ (locals ++ waiting.flatten).names := by
      simp only [names_append, h, List.suffix_refl]
    cases hl with
    | body hf => exact absurd rfl (h _ _)
    | first => exact List.tail_suffix _
    | @rest a _ _ s ss locals _ hs =>
      have hgrow : locals.names = grow s.declares? a.locals.names := ((keepsAt _).exec _ _ _ hs).2
      simp only [Nested.kept, alive, Activation.after, names_append, hgrow, tail_grow_append,
        List.suffix_refl]
    | nextIteration hb => exact same ((keepsAt _).block (d := False) _ _ _ _ hb).2
    | loopAgain he hb => exact same ((keepsAt _).block (d := False) _ _ _ _ hb).2
    | _ => exact List.suffix_refl _

/-- So all that is alive when a statement is begun is alive, with the same names, at every moment
inside it. -/
theorem alive_of_leads {a : Activation} {s : Stmt} {fuel : Nat} {σ : Store}
    {waiting : List Locals} {n : Nested}
    (h : Relation.ReflTransGen Leads ⟨⟨a, .stmt s, fuel, σ⟩, waiting⟩ n) :
    (a.locals ++ waiting.flatten).names <:+ n.alive := by
  suffices hk : (a.locals ++ waiting.flatten).names <:+ n.kept from hk.trans n.kept_suffix
  induction h with
  | refl => exact List.suffix_refl _
  | tail _ hl ih => exact ih.trans hl.kept

end Nested

/-! ### Statements -/

/-- What a statement adds to the own table of the pass when it completes: the variable of a
declaration where there is no frame. -/
def Stmt.ownVariables (s : Stmt) (pass : Pass) : Locals → List Variable
  | [] => (s.declares?.map pass.ownVariable).toList
  | _ :: _ => []

/-- The statement, executed by the pass in that store with so much fuel, leaks nothing into the
scopes around it. -/
structure Stmt.LeaksNothing (s : Stmt) (pass : Pass) (fuel : Nat) (σ : Store) : Prop where
  /-- What completes has added its name to the innermost frame or its variable to the own table, if
  it is a declaration, and otherwise nothing. -/
  completed : ∀ locals locals' τ, exec pass fuel locals s σ = .ok (.completed locals') τ →
    locals'.names = grow s.declares? locals.names ∧
      σ.Adds pass.scope.top (s.ownVariables pass locals) [] τ
  returned : ∀ locals v τ, exec pass fuel locals s σ = .ok (.returned v) τ →
    σ.Adds pass.scope.top [] [] τ
  stopped : ∀ locals stop τ, exec pass fuel locals s σ = .error stop τ →
    σ.Adds pass.scope.top [] [] τ
  /-- At every moment inside it, the frames around it are there with the names that they had. -/
  meanwhile : ∀ (a : Activation) waiting n, a.pass = pass →
    Relation.ReflTransGen Nested.Leads ⟨⟨a, .stmt s, fuel, σ⟩, waiting⟩ n →
      (a.locals ++ waiting.flatten).names <:+ n.alive

variable {pass : Pass} {fuel : Nat} {σ τ : Store}

/-- A declaration that is executed completes or stops. -/
theorem exec_declaration_ne_returned {locals : Locals} {name : Name} {typeName : Option Text}
    {value : Option Expr} {bound : Option Variable} {v : Value} :
    exec pass fuel locals (.declaration name typeName value bound) σ ≠ .ok (.returned v) τ := by
  intro h
  cases fuel with
  | zero => cases h
  | succ fuel =>
    cases value with
    | none =>
      obtain ⟨_, _, _, h⟩ := Eval.bind_ok.mp h
      obtain ⟨_, _, _, h⟩ := Eval.bind_ok.mp h
      cases h
    | some e =>
      obtain ⟨_, _, _, h⟩ := Eval.bind_ok.mp h
      obtain ⟨_, _, _, h⟩ := Eval.bind_ok.mp h
      cases h

/-- A declaration outside of all blocks makes its variable. -/
theorem binds_exec_declaration (pass : Pass) (fuel : Nat) (name : Name) (typeName : Option Text)
    (value : Option Expr) (bound : Option Variable) :
    Eval.Binds pass.scope.top [pass.ownVariable name] []
      (exec pass fuel [] (.declaration name typeName value bound)) := by
  cases fuel with
  | zero => exact Eval.binds_throw _
  | succ fuel =>
    cases value with
    | none => exact (Eval.binds_declare pass name _).bind_pure _
    | some e =>
      exact ((keepsAt fuel).eval pass [] e).binds fun v =>
        (Eval.binds_declare pass name v).bind_pure _

theorem Stmt.leaksNothing (s : Stmt) (pass : Pass) (fuel : Nat) {σ : Store}
    (htop : σ.HasTable pass.scope.top) : s.LeaksNothing pass fuel σ := by
  refine ⟨fun locals locals' τ h => ?_, fun locals v τ h => ?_, fun locals stop τ h => ?_,
    fun a waiting n ha h => Nested.alive_of_leads h⟩
  · obtain ⟨hchanges, hnames⟩ := (keepsAt fuel).exec pass locals s h
    refine ⟨hnames, ?_⟩
    cases locals with
    | cons frame outer => exact (hchanges.mono fun hd => nomatch hd.1).adds
    | nil =>
      cases s with
      | declaration name typeName value bound =>
        exact binds_exec_declaration pass fuel name typeName value bound htop h
      | _ => exact (hchanges.mono fun hd => hd.2 rfl).adds
  · obtain ⟨hchanges, -⟩ := (keepsAt fuel).exec pass locals s h
    cases s with
    | declaration name typeName value bound => exact absurd h exec_declaration_ne_returned
    | _ => exact (hchanges.mono fun hd => hd.2 rfl).adds
  · exact ((stopsAt fuel).exec pass locals s h).adds

/-! ### Sources -/

/-- However the evaluation of the source ends, begun by the pass in that store with so much fuel, it
has added its first fields and, once all fields are declared, its first methods, in the own table of
the pass; all of them, if it comes to an answer. -/
def Source.AddsItsOwn (s : Source) (pass : Pass) (fuel : Nat) (σ : Store) : Prop :=
  ∃ fields methods, fields <+: s.fields ∧ methods <+: s.methods ∧
    (fields = s.fields ∨ methods = []) ∧
    ((pass.evaluate fuel s).stop? σ = none → fields = s.fields ∧ methods = s.methods) ∧
    σ.Adds pass.scope.top (fields.filterMap pass.fieldVariable?)
      (methods.filterMap pass.methodRoutine?) ((pass.evaluate fuel s).after σ)

/-- The tables and registries that there were have kept their variables, functions and types, and
have got no others. -/
structure Store.Spares (σ τ : Store) : Prop where
  vars : ∀ id, σ.HasTable id → τ.vars id = σ.vars id
  functions : ∀ id, σ.HasTable id → (τ.table id).routines = (σ.table id).routines
  registries : ∀ id, id < σ.registries.size → τ.registry id = σ.registry id

/-- A new pass has a new table for its own, so the evaluation adds nothing to those of the host. -/
theorem Source.evaluate_spares (s : Source) (host : Host) (fuel : Nat) (σ : Store) :
    σ.Spares ((s.evaluate host fuel).after σ) := by
  have hnew := σ.newPass_spec host.parent host.registry (some .print)
  obtain ⟨fields, methods, -, -, -, -, hadds⟩ :=
    evaluate_adds (host.evaluator σ).1 fuel s hnew.top
  have hne {id : TableId} (hid : σ.HasTable id) : id ≠ (host.evaluator σ).1.scope.top :=
    fun he => hnew.fresh (he ▸ hid)
  refine ⟨fun id hid => ?_, fun id hid => ?_, fun id hid => ?_⟩
  · exact (hadds.vars.other (hne hid)).trans (congrFun hnew.vars id)
  · exact (hadds.functions.other id (hne hid)).trans
      (congrArg Table.routines (hnew.keeps.table id hid))
  · exact (congrArg (·.getD id []) hadds.registries).trans (σ.registry_newPass _ _ _ hid)

/-- **Scopes never leak.** A statement that a pass executes at any depth, in any frames and however
it ends, adds to no scope around it, but for a declaration that completes, which adds its own name
to its own scope. The evaluation of a source adds its fields and methods to the own table of the
pass, and to what the host has given it adds nothing. -/
theorem Pass.scopes_never_leak (pass : Pass) {σ : Store} (htop : σ.HasTable pass.scope.top)
    (fuel : Nat) :
    (∀ s : Stmt, s.LeaksNothing pass fuel σ) ∧ (∀ s : Source, s.AddsItsOwn pass fuel σ) ∧
      ∀ (s : Source) (host : Host), σ.Spares ((s.evaluate host fuel).after σ) :=
  ⟨fun s => s.leaksNothing pass fuel htop, fun s => evaluate_adds pass fuel s htop,
    fun s host => s.evaluate_spares host fuel σ⟩

/-- A new pass that executes `LET x = 1;`. -/
theorem Pass.scopes_never_leak_declaring :
    let pass := (Host.none.evaluator .initial).1
    let σ := (Host.none.evaluator .initial).2
    let s := Stmt.declaration (some "x") none (some (.literal (.integer 1) none)) none
    σ.HasTable pass.scope.top ∧ ∃ τ, exec pass 2 [] s σ = .ok (.completed []) τ ∧
      σ.Adds pass.scope.top [pass.ownVariable (some "x")] [] τ := by
  intro pass σ s
  have htop : σ.HasTable pass.scope.top := by decide
  have hrun : ∃ τ, exec pass 2 [] s σ = .ok (.completed []) τ := ⟨_, rfl⟩
  obtain ⟨τ, h⟩ := hrun
  exact ⟨htop, τ, h, (((Pass.scopes_never_leak pass htop 2).1 s).completed [] [] τ h).2⟩

end Parlance
