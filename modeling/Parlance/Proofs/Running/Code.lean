/-
Whose code is running.

An evaluation only ever works on parts of the text it was given: a step goes from a piece of
the program to one inside it, or enters the body of a method that some table of the store
has.  So at each moment the task is part of the body of the method that is running, or of
what stands outside of all methods, and that method has been found in a table.  Since what
runs changes no function, the tables may be taken as they were at the beginning.
-/
import Parlance.Proofs.Running.Moment
import Parlance.Proofs.Running.Stable
import Parlance.Syntax.Traversal

namespace Parlance

/-- The nodes that a task is about. -/
def Task.nodes : Task → List Node
  | .expr e => e.walk
  | .exprs es => walkExprs es
  | .invocation _ _ => []
  | .stmt s => s.walk
  | .stmts ss | .block _ _ ss | .iterate _ _ ss => walkStmts ss
  | .loop e ss => e.walk ++ walkStmts ss

/-- The function that a task is about. -/
def Task.routine? : Task → Option Routine
  | .invocation r _ => some r
  | _ => none

/-- The nodes of what is running: of the method's body, or of what stands outside of all
methods. -/
def Activation.code (a : Activation) (outside : List Node) : List Node :=
  a.method?.elim outside fun m => walkStmts m.body

/-! ### What every step keeps -/

namespace Leads

variable {m m' : Moment} (hl : Leads m m')

include hl

/-- A step changes the store no more than an evaluation does. It declares a variable in a table only
after a statement that has been executed where there is no frame. -/
theorem changes :
    m.store.Changes (∃ ss, m.task = .stmts ss ∧ m.activation.locals = []) m'.store := by
  cases hl with
  | right he _ => exact ((keepsAt _).eval _ _ _ he).1
  | callInvoke has _ => exact ((keepsAt _).evalAll _ _ _ has).1
  | memberCallArguments he => exact ((keepsAt _).eval _ _ _ he).1
  | memberCallInvoke he has _ _ =>
    exact ((keepsAt _).eval _ _ _ he).1.trans ((keepsAt _).evalAll _ _ _ has).1
  | tail he => exact ((keepsAt _).eval _ _ _ he).1
  | assignedMember hr _ _ => exact ((keepsAt _).eval _ _ _ hr).1
  | branch he => exact ((keepsAt _).eval _ _ _ he).1
  | iterations he => exact ((keepsAt _).eval _ _ _ he).1
  | rest hs => exact ((keepsAt _).exec _ _ _ hs).1.mono fun h => ⟨_, rfl, h.1⟩
  | nextIteration hb => exact ((keepsAt _).block _ _ _ _ hb).1
  | loopBody he => exact ((keepsAt _).eval _ _ _ he).1
  | loopAgain he hb =>
    exact ((keepsAt _).eval _ _ _ he).1.trans ((keepsAt _).block _ _ _ _ hb).1
  | _ => exact .refl _

/-- A function that is called has been found in a table. -/
theorem hasRoutine {r : Routine} (hr : m'.task.routine? = some r) : m'.store.HasRoutine r := by
  cases hl with
  | callInvoke _ hf =>
    cases hr
    exact Store.hasRoutine_of_scopeFunction hf
  | memberCallInvoke _ _ _ hf =>
    cases hr
    exact Store.hasRoutine_of_memberFunction hf
  | _ => cases hr

variable (hcall : ∀ r vs, m.task ≠ .invocation r vs)

include hcall

/-- Only the call of a function leads to another activation. -/
theorem same_method :
    m'.activation.pass = m.activation.pass ∧ m'.activation.method? = m.activation.method? := by
  cases hl with
  | body _ => exact absurd rfl (hcall _ _)
  | _ => exact ⟨rfl, rfl⟩

/-- Within an activation a step leads to a part of the task. -/
theorem nodes_subset : m'.task.nodes ⊆ m.task.nodes := by
  cases hl with
  | body _ => exact absurd rfl (hcall _ _)
  | callInvoke _ _ => exact List.nil_subset _
  | memberCallInvoke _ _ _ _ => exact List.nil_subset _
  | assignedReceiver =>
    intro x hx
    exact List.mem_cons_of_mem _ (List.mem_append_left _ (List.mem_cons_of_mem _ hx))
  | assignedMember _ _ _ =>
    intro x hx
    exact List.mem_cons_of_mem _ (List.mem_append_right _ hx)
  | @branch _ _ _ _ _ _ b _ _ =>
    intro x hx
    refine List.mem_cons_of_mem _ (List.mem_append_right _ ?_)
    cases b with
    | false => exact List.mem_append_right _ hx
    | true => exact List.mem_append_left _ hx
  | _ => simp [Task.nodes, Expr.walk, Stmt.walk, walkExprs, walkStmts, walkOption]

end Leads

/-- What is to be done is part of what is running, and that is code of the store `ρ` or stands
outside of all methods. -/
structure Moment.Within (ρ : Store) (outside : List Node) (m : Moment) : Prop where
  functions : ρ.SameFunctions m.store
  code : m.task.nodes ⊆ m.activation.code outside
  origin : ∀ method, m.activation.method? = some method →
    ∃ f, ρ.HasRoutine ⟨f, some (.method method m.activation.pass)⟩
  routine : ∀ r, m.task.routine? = some r → ρ.HasRoutine r

namespace Moment.Within

variable {ρ : Store} {outside : List Node} {task : Task} {n : Nat} {σ : Store}

/-- What stands outside of all methods, and a function of the store. -/
theorem of_outside {pass : Pass} (hσ : ρ.SameFunctions σ) (hn : task.nodes ⊆ outside)
    (hr : ∀ r, task.routine? = some r → ρ.HasRoutine r) :
    Within ρ outside ⟨pass.outside, task, n, σ⟩ :=
  ⟨hσ, hn, nofun, hr⟩

/-- **A step of a run leads from code of the store to code of the store.** -/
theorem leads {m m' : Moment} (hl : Leads m m') (h : m.Within ρ outside) : m'.Within ρ outside := by
  have hfunctions := h.functions.trans hl.changes.same_functions
  have hroutine (r : Routine) (hr : m'.task.routine? = some r) : ρ.HasRoutine r :=
    hfunctions.hasRoutine (hl.hasRoutine hr)
  by_cases hcall : ∃ r vs, m.task = .invocation r vs
  · -- the only step to another activation, that of a method which some table has
    obtain ⟨r, vs, ht⟩ := hcall
    obtain ⟨a, task, n, σ⟩ := m
    cases ht
    cases hl with
    | @body _ _ _ f _ _ _ _ hf =>
      refine ⟨hfunctions, List.Subset.refl _, ?_, hroutine⟩
      intro method hm
      cases hm
      exact ⟨f, h.routine _ rfl⟩
  · have hcall' : ∀ r vs, m.task ≠ .invocation r vs := fun r vs ht => hcall ⟨r, vs, ht⟩
    obtain ⟨hpass, hmethod⟩ := hl.same_method hcall'
    refine ⟨hfunctions, ?_, ?_, hroutine⟩
    · rw [Activation.code, hmethod]
      exact List.Subset.trans (hl.nodes_subset hcall') h.code
    · rw [hmethod, hpass]
      exact h.origin

end Moment.Within

/-! ### Runs of a source -/

theorem FieldPlace.walk_initial? {p : FieldPlace} {e : Expr} (h : p.initial? = some e) :
    e.walk ⊆ p.walk := by
  obtain ⟨f, hf, he⟩ := Option.bind_eq_some_iff.mp h
  rw [walk_of_field? hf, he]
  exact List.subset_cons_self _ _

namespace Source

variable {s : Source} {host : Host} {fuel : Nat} {σ : Store} {m : Moment}

/-- An evaluation begins with code of the store that the pass begins in, as long as fields are
evaluated, and then with code of the store in which everything is declared. -/
theorem Begins.within (h : s.Begins host fuel σ m) :
    m.Within (host.evaluator σ).2 (s.fields.flatMap FieldPlace.walk) ∨
      ∃ ρ, (host.evaluator σ).1.declareSource fuel s (host.evaluator σ).2 = .ok () ρ ∧
        m.Within ρ [] := by
  cases h with
  | @field _ _ p _ _ hs he hb =>
    have hsame := stable_declareFields _ _ _ hb
    refine .inl (.of_outside hsame ?_ fun r hr => nomatch hr)
    intro x hx
    have hp : p ∈ s.fields := by simp [hs]
    exact List.mem_flatMap.mpr ⟨p, hp, FieldPlace.walk_initial? he hx⟩
  | main hd hm =>
    refine .inr ⟨_, hd, .of_outside ⟨rfl, fun _ => rfl⟩ (List.nil_subset _) ?_⟩
    intro r hr
    cases hr
    exact Store.hasRoutine_of_scopeFunction hm

/-- So an evaluation goes through nothing but code of one of these stores. -/
theorem Reaches.within (h : s.Reaches host fuel σ m) :
    m.Within (host.evaluator σ).2 (s.fields.flatMap FieldPlace.walk) ∨
      ∃ ρ, (host.evaluator σ).1.declareSource fuel s (host.evaluator σ).2 = .ok () ρ ∧
        m.Within ρ [] := by
  refine h.of_steps (fun _ hb => hb.within) fun hl hm => ?_
  rcases hm with hm | ⟨ρ, hρ, hm⟩
  · exact .inl (hm.leads hl)
  · exact .inr ⟨ρ, hρ, hm.leads hl⟩

end Source

end Parlance
