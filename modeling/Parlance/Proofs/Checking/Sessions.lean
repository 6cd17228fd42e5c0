/-
Checks one after the other.

A pass that checks can be asked again, after checks that passed and after checks that failed: for a
source, or for a statement or an expression in any scope that there is.  What has been asked for
only shows in the own tables of these scopes, where it adds bindings at the end.  In its own state
the pass keeps nothing of it: between the requests no block is open, and there is no method to
return from.
-/
import Parlance.Proofs.Checking.Confined
import Parlance.Proofs.Checking.Restored

namespace Parlance

/-! ### Tables that grow -/

/-- From one store to the other some of these tables get more bindings, and no binding that was
there has another value. All else is as it was, but for the log. -/
structure Store.Grows (tops : List TableId) (σ τ : Store) : Prop where
  size : τ.tables.size = σ.tables.size
  grown : ∀ id, (σ.table id).Extends (τ.table id)
  other : ∀ id, id ∉ tops → τ.table id = σ.table id
  registries : τ.registries = σ.registries
  objects : τ.objects = σ.objects
  output : τ.output = σ.output
  encoding : τ.encoding = σ.encoding

namespace Store

variable {tops more : List TableId} {σ τ υ : Store}

theorem Grows.refl (tops : List TableId) (σ : Store) : Grows tops σ σ :=
  ⟨rfl, fun _ => .refl _, fun _ _ => rfl, rfl, rfl, rfl, rfl⟩

theorem Grows.trans (h : Grows tops σ τ) (h' : Grows more τ υ) : Grows (tops ++ more) σ υ where
  size := h'.size.trans h.size
  grown id := (h.grown id).trans (h'.grown id)
  other id hid := by
    rw [List.mem_append, not_or] at hid
    exact (h'.other id hid.2).trans (h.other id hid.1)
  registries := h'.registries.trans h.registries
  objects := h'.objects.trans h.objects
  output := h'.output.trans h.output
  encoding := h'.encoding.trans h.encoding

theorem Grows.hasTable (h : Grows tops σ τ) {id : TableId} (hid : σ.HasTable id) :
    τ.HasTable id := by
  rwa [HasTable, h.size]

theorem Gains.grows {top : TableId} {ss : List Slot} {rs : List Routine} (h : Gains top ss rs σ τ) :
    Grows [top] σ τ where
  size := h.size
  grown id := by
    by_cases hid : id = top
    · rw [hid, h.own]
      exact ⟨List.prefix_append _ _, List.prefix_append _ _⟩
    · rw [h.other id hid]
      exact .refl _
  other id hid := h.other id fun he => hid (List.mem_singleton.mpr he)
  registries := h.registries
  objects := h.objects
  output := h.output
  encoding := h.encoding

end Store

/-! ### Requests -/

/-- What a pass that checks can be asked for. -/
inductive Request where
  | source (s : Source)
  | statement (scope : Scope) (s : Stmt)
  | expression (scope : Scope) (e : Expr)

/-- The tables in which a request may declare something. -/
def Request.tops (pass : Pass) : Request → List TableId
  | source _ => [pass.scope.top]
  | statement scope _ => [scope.top]
  | expression _ _ => []

/-- Checks what is asked for. -/
def Pass.perform (pass : Pass) : Request → Analysis (Except Fault Unit)
  | .source s => do return (← Analyzer.check pass s).2
  | .statement scope s => do return (← Analyzer.checkStmt { pass with scope } s).2
  | .expression scope e => do
    return (← Analyzer.checkExpr { pass with scope } e).2.map fun _ => ()

/-- What the pass keeps after some requests, whether their checks have passed or not. -/
def Pass.session (pass : Pass) (requests : List Request) (a : Analyzer) : Analyzer :=
  requests.foldl (fun a r => ((pass.perform r).run a).2) a

/-- The state is outside of all blocks and all methods. -/
structure Analyzer.Idle (a : Analyzer) : Prop where
  blocks : a.blocks = []
  method? : a.method? = none

variable {pass : Pass} {σ : Store} {a : Analyzer}

theorem Analyzer.idle_new (σ : Store) : (new σ).Idle :=
  ⟨rfl, rfl⟩

theorem Analyzer.Idle.eq (ha : a.Idle) : a = ⟨a.store, [], none⟩ := by
  rw [← ha.blocks, ← ha.method?]

/-- A request ends with the method with which it began. -/
theorem Pass.restores_perform (r : Request) : Analyzer.Restores (pass.perform r) := by
  cases r with
  | source s => exact (Analyzer.restores_check s).bind fun _ => Analyzer.restores_pure _
  | statement scope s =>
    exact (Analyzer.restores_checkStmt s).bind fun _ => Analyzer.restores_pure _
  | expression scope e =>
    exact (Analyzer.restores_checkExpr e).bind fun _ => Analyzer.restores_pure _

/-- The state after a request, and what it adds. -/
theorem Pass.perform_grows (ha : a.Idle) (r : Request)
    (htops : ∀ id ∈ r.tops pass, a.store.HasTable id) :
    ∃ τ, ((pass.perform r).run a).2 = { a with store := τ } ∧
      a.store.Grows (r.tops pass) τ := by
  cases r with
  | source s =>
    rw [perform, Analyzer.run_bind_of (Analyzer.comesTo_check s a ha.blocks)]
    obtain ⟨_, _, _, _, -, -, -, -, hgains, -⟩ := s.confined (htops _ (List.mem_singleton_self _))
    exact ⟨_, rfl, hgains.grows⟩
  | statement scope s =>
    have htop : a.store.HasTable ({ pass with scope } : Pass).scope.top :=
      htops _ (List.mem_singleton_self _)
    have hs := s.confined htop
    rw [perform, Analyzer.run_bind_of (Analyzer.run_checkStmt_outside ha.blocks ha.method? s)]
    refine ⟨_, rfl, ?_⟩
    change a.store.Grows [scope.top] (Pass.checkStmt { pass with scope } s a.store).store
    cases hv : (Pass.checkStmt { pass with scope } s a.store).verdict with
    | ok _ =>
      obtain ⟨_, hgains, -⟩ := hs.passed hv
      exact hgains.grows
    | error f =>
      rw [hs.refused f hv]
      exact .refl _ a.store
  | expression scope e =>
    rw [perform, Analyzer.run_bind_of (Analyzer.run_checkExpr a none e)]
    exact ⟨a.store, rfl, .refl _ a.store⟩

/-- What all of them add, one after the other. -/
theorem Pass.session_grows (requests : List Request) (ha : a.Idle)
    (htops : ∀ id ∈ requests.flatMap (Request.tops pass), a.store.HasTable id) :
    (pass.session requests a).Idle ∧
      a.store.Grows (requests.flatMap (Request.tops pass)) (pass.session requests a).store := by
  induction requests generalizing a with
  | nil => exact ⟨ha, .refl _ a.store⟩
  | cons r requests ih =>
    rw [List.flatMap_cons, List.forall_mem_append] at htops
    obtain ⟨τ, hτ, hgrows⟩ := Pass.perform_grows ha r htops.1
    have hrest := ih (a := { a with store := τ }) ⟨ha.blocks, ha.method?⟩
      fun id hid => hgrows.hasTable (htops.2 id hid)
    rw [session, List.foldl_cons, hτ]
    exact ⟨hrest.1, hgrows.trans hrest.2⟩

/-! ### Returning -/

/-- Outside of all methods there is nothing to return from, whatever has been checked before. -/
theorem Pass.checkStmt_returning (pass : Pass) (e : Expr) (σ : Store) :
    pass.checkStmt (.returning e) σ = ⟨.returning e, .error (.check .returnOutside), σ⟩ := by
  rw [checkStmt, Stmt.check]
  rfl

theorem Pass.exists_of_checkStmt {s : Stmt} (h : (pass.checkStmt s σ).verdict = .ok ()) :
    ∃ s' declared, s.check (pass.context σ) = (s', .ok declared) := by
  unfold checkStmt at h
  split at h
  · next hs => exact ⟨_, _, hs⟩
  · next hs => exact ⟨_, _, hs⟩
  · cases h

/-- So a statement that passes there returns nowhere, not even in its parts. -/
theorem Pass.not_returning_of_checkStmt {s : Stmt} (h : (pass.checkStmt s σ).verdict = .ok ())
    (e : Expr) : .stmt (.returning e) ∉ s.walk := by
  intro hmem
  obtain ⟨s', declared, hs⟩ := Pass.exists_of_checkStmt h
  -- The judgement is about the annotated tree, in which the statement stands as well.
  have hwalk : s'.walk.map Node.bare = s.walk.map Node.bare := by
    rw [← Stmt.walk_bare, ← Stmt.walk_bare, ← s.check_bare (c := pass.context σ), hs]
  obtain ⟨n, hn, he⟩ := List.mem_map.mp (hwalk ▸ List.mem_map_of_mem (f := Node.bare) hmem)
  cases (Stmt.check_typed hs).near hn with
  | expr => cases he
  | stmt _ _ hr ht =>
    cases ht with
    | returning hreturns => exact absurd (hreturns.symm.trans hr) (Option.some_ne_none _)
    | _ => cases he

/-! ### Inside of blocks -/

/-- In a block a statement adds to that block what it would add to the scope, and changes nothing
else. -/
theorem Analyzer.run_checkStmt_inside {returns? : Option Ty} (ha : a.Returns pass returns?)
    {block : List Variable} {outer : Blocks} (hb : a.blocks = block :: outer) (s : Stmt) :
    ∃ vs : List Variable,
      ((checkStmt pass s).run a).2 = { a with blocks := (block ++ vs) :: outer } ∧
      (((checkStmt pass s).run a).1.2 = .ok () → vs.map Variable.name = s.declares?.toList) ∧
      ∀ f, ((checkStmt pass s).run a).1.2 = .error f → vs = [] := by
  rw [run_checkStmt a ha]
  rcases hs : s.check (a.place pass returns?) with ⟨s', f | declared⟩
  · refine ⟨[], ?_, nofun, fun _ _ => rfl⟩
    rw [List.append_nil, ← hb]
    rfl
  · refine ⟨declared.toList, extend_of_blocks hb declared, fun _ => ?_, nofun⟩
    rw [← Stmt.name_of_check hs]
    cases declared <;> rfl

/-! ### All that a pass does in one state -/

/-- What is checked in this state, from outside of all blocks and methods, stays in the scope that
it is checked in. -/
structure Analyzer.Confines (a : Analyzer) (pass : Pass) : Prop where
  idle : a.Idle
  /-- A source adds its first fields and methods, and nothing else in the state is changed. The
  checker without a state comes to the same. -/
  source : ∀ s : Source, ((check pass s).run a) = a.kept (pass.check s a.store) ∧
    s.Confined pass a.store ((check pass s).run a).1.2 ((check pass s).run a).2.store
  /-- So is nothing but the store by a statement, which adds its own name if it declares it. -/
  statement : ∀ scope s, a.store.HasTable scope.top →
    ∃ τ, ((checkStmt { pass with scope } s).run a).2 = { a with store := τ } ∧
      s.Confined { pass with scope } a.store ((checkStmt { pass with scope } s).run a).1.2 τ
  /-- An expression changes nothing at all. -/
  expression : ∀ scope e, ((checkExpr { pass with scope } e).run a).2 = a
  /-- There is nothing to return from. -/
  returning : ∀ scope e, (checkStmt { pass with scope } (.returning e)).run a =
    ((.returning e, .error (.check .returnOutside)), a)
  /-- So a statement that passes returns nowhere, not even in its parts. -/
  walk : ∀ scope s, ((checkStmt { pass with scope } s).run a).1.2 = .ok () →
    ∀ e, .stmt (.returning e) ∉ s.walk

theorem Analyzer.Idle.confines (ha : a.Idle) (htop : a.store.HasTable pass.scope.top) :
    a.Confines pass where
  idle := ha
  source s := by
    rw [comesTo_check s a ha.blocks]
    exact ⟨rfl, s.confined htop⟩
  statement scope s hscope := by
    rw [run_checkStmt_outside ha.blocks ha.method?]
    exact ⟨_, rfl, s.confined hscope⟩
  expression scope e := by rw [run_checkExpr a none e]
  returning scope e := by
    rw [run_checkStmt_outside ha.blocks ha.method?, Pass.checkStmt_returning]
    rfl
  walk scope s h := by
    rw [run_checkStmt_outside ha.blocks ha.method?] at h
    exact Pass.not_returning_of_checkStmt h

end Parlance
