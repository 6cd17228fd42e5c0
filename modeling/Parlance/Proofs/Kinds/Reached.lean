/-
What a run of a checked program goes through.

A moment is proper in a setting when its frames fit the blocks of its activation, its store
models the setting, and its task passed the check in a covered place with these blocks.
Every step of a run leads from proper moments to proper ones.  What a step presupposes of
the calls before it is that they have come to a result, and soundness says what that result
is like and in what store they have left the program.
-/
import Parlance.Proofs.Kinds.Soundness
import Parlance.Proofs.Running.Moment

namespace Parlance

namespace Setting

variable (w : Setting)

/-- The task passed the check, in a covered place with these blocks. -/
inductive Checked (blocks : Blocks) : Task → Prop
  | expr {c : Context} {e : Expr} {t : Option Ty} (hc : w.Covers c) (hb : c.blocks = blocks)
      (ht : e.Typed c t) (hcare : Careful w.lax e.walk) : Checked blocks (.expr e)
  | exprs {c : Context} {es : List Expr} {ts : List (Option Ty)} (hc : w.Covers c)
      (hb : c.blocks = blocks) (ht : Expr.AllTyped c es ts)
      (hcare : Careful w.lax (walkExprs es)) : Checked blocks (.exprs es)
  | invocation {s r : Routine} {vs : List Value} (hi : w.Implements s r)
      (hvs : List.Forall₂ (Holds w.lax) s.function.parameterTypes vs) :
      Checked blocks (.invocation r vs)
  | stmt {c : Context} {s : Stmt} {d : Option Variable} (hc : w.Covers c)
      (hb : c.blocks = blocks) (hne : blocks ≠ []) (hs : s.Typed c d)
      (hcare : Careful w.lax s.walk) : Checked blocks (.stmt s)
  | stmts {c : Context} {ss : List Stmt} (hc : w.Covers c) (hb : c.blocks = blocks)
      (hne : blocks ≠ []) (hs : Stmt.AllTyped c ss) (hcare : Careful w.lax (walkStmts ss)) :
      Checked blocks (.stmts ss)
  | block {c : Context} {vars : List Variable} {frame : Frame} {ss : List Stmt}
      (hc : w.Covers c) (hb : c.blocks = blocks) (hplain : ∀ v ∈ vars, Ty.Plain v.type)
      (hf : Frame.Fits (Holds w.lax) vars frame) (hs : Stmt.AllTyped (c.enter vars) ss)
      (hcare : Careful w.lax (walkStmts ss)) : Checked blocks (.block vars frame ss)
  | iterate {c : Context} {name : Name} {items : List Int} {ss : List Stmt} (hc : w.Covers c)
      (hb : c.blocks = blocks) (hs : Stmt.AllTyped (c.enter [c.blocks.item name]) ss)
      (hcare : Careful w.lax (walkStmts ss)) : Checked blocks (.iterate name items ss)
  | loop {c : Context} {e : Expr} {t : Option Ty} {ss : List Stmt} (hc : w.Covers c)
      (hb : c.blocks = blocks) (ht : e.Typed c t) (htakes : Ty.Takes (some Builtin.boolean.type) t)
      (hs : Stmt.AllTyped (c.enter []) ss) (hce : Careful w.lax e.walk)
      (hcs : Careful w.lax (walkStmts ss)) : Checked blocks (.loop e ss)

variable {w} {blocks : Blocks}

theorem Checked.expr_inv {e : Expr} (h : w.Checked blocks (.expr e)) :
    ∃ c t, w.Covers c ∧ c.blocks = blocks ∧ e.Typed c t ∧ Careful w.lax e.walk := by
  cases h with
  | expr hc hb ht hcare => exact ⟨_, _, hc, hb, ht, hcare⟩

theorem Checked.stmt_inv {s : Stmt} (h : w.Checked blocks (.stmt s)) :
    ∃ c d, w.Covers c ∧ c.blocks = blocks ∧ s.Typed c d ∧ Careful w.lax s.walk := by
  cases h with
  | stmt hc hb _ hs hcare => exact ⟨_, _, hc, hb, hs, hcare⟩

variable (w)

/-- A moment of a checked program. -/
structure Proper (m : Moment) : Prop where
  pass : m.activation.pass = w.pass
  fit : m.activation.locals.Fit (Holds w.lax) m.activation.blocks
  models : w.Models m.store
  task : w.Checked m.activation.blocks m.task

variable {w}

/-- In a proper moment, the place that its task passed the check in. -/
theorem Proper.at {m : Moment} (h : w.Proper m) {c : Context} (hc : w.Covers c)
    (hb : c.blocks = m.activation.blocks) : w.At c m.activation.locals m.store :=
  ⟨hc, hb ▸ h.fit, h.models⟩

section Steps

variable {a : Activation} {n : Nat} {σ : Store} {m : Moment}

/-- The calls that an expression makes. -/
theorem Proper.leads_expr {e : Expr} (h : w.Proper ⟨a, .expr e, n, σ⟩)
    (hl : Leads ⟨a, .expr e, n, σ⟩ m) : w.Proper m := by
  have hp : a.pass = w.pass := h.pass
  obtain ⟨c, t, hc, hb, ht, hcare⟩ := h.task.expr_inv
  have hat := h.at hc hb
  cases hl with
  | group =>
    rw [Expr.walk] at hcare
    cases ht with
    | group _ he => exact ⟨hp, h.fit, h.models, .expr hc hb he hcare.tail⟩
  | left =>
    rw [Expr.walk] at hcare
    cases ht with
    | binary hl _ _ => exact ⟨hp, h.fit, h.models, .expr hc hb hl hcare.tail.left⟩
  | right he _ =>
    rw [Expr.walk] at hcare
    rw [hp] at he
    cases ht with
    | binary hl hr _ =>
      have hm := (((soundAt w _).eval hat hl hcare.tail.left).ok he).1
      exact ⟨hp, h.fit, hm, .expr hc hb hr hcare.tail.right⟩
  | memberReceiver =>
    rw [Expr.walk] at hcare
    cases ht with
    | member _ hr _ _ => exact ⟨hp, h.fit, h.models, .expr hc hb hr hcare.tail⟩
  | callArguments =>
    rw [Expr.walk] at hcare
    cases ht with
    | call has _ _ => exact ⟨hp, h.fit, h.models, .exprs hc hb has hcare.tail⟩
  | callInvoke has hr =>
    rw [Expr.walk] at hcare
    rw [hp] at has hr
    cases ht with
    | call hts hf htakes =>
      obtain ⟨hm, hvs⟩ := ((soundAt w _).evalAll hat hts hcare.tail).ok has
      obtain ⟨s, r', rfl, hi, hr'⟩ := (hat.of_models hm).scopeFunction (hvs.length_eq ▸ hf)
      cases hr.symm.trans hr'
      exact ⟨hp, h.fit, hm, .invocation hi (holds_moved htakes hvs)⟩
  | memberCallReceiver =>
    cases ht with
    | memberCall _ _ hr hf _ =>
      exact absurd hf (hc.alone.memberFunctionOf_ne (hr.plain hc.alone) _ _ _)
  | memberCallArguments _ =>
    cases ht with
    | memberCall _ _ hr hf _ =>
      exact absurd hf (hc.alone.memberFunctionOf_ne (hr.plain hc.alone) _ _ _)
  | memberCallInvoke _ _ _ _ =>
    cases ht with
    | memberCall _ _ hr hf _ =>
      exact absurd hf (hc.alone.memberFunctionOf_ne (hr.plain hc.alone) _ _ _)

/-- The calls that a list of expressions makes. -/
theorem Proper.leads_exprs {es : List Expr} (h : w.Proper ⟨a, .exprs es, n, σ⟩)
    (hl : Leads ⟨a, .exprs es, n, σ⟩ m) : w.Proper m := by
  have hp : a.pass = w.pass := h.pass
  cases h.task with
  | exprs hc hb ht hcare =>
    have hat := h.at hc hb
    cases hl with
    | head =>
      rw [walkExprs] at hcare
      cases ht with
      | cons he _ => exact ⟨hp, h.fit, h.models, .expr hc hb he hcare.left⟩
    | tail he' =>
      rw [walkExprs] at hcare
      rw [hp] at he'
      cases ht with
      | cons he hes =>
        have hm := (((soundAt w _).eval hat he hcare.left).ok he').1
        exact ⟨hp, h.fit, hm, .exprs hc hb hes hcare.right⟩

/-- The call that a function makes. -/
theorem Proper.leads_invocation {r : Routine} {vs : List Value}
    (h : w.Proper ⟨a, .invocation r vs, n, σ⟩) (hl : Leads ⟨a, .invocation r vs, n, σ⟩ m) :
    w.Proper m := by
  cases h.task with
  | invocation hi hvs =>
    cases hl with
    | @body _ _ _ _ method _ _ _ hf =>
      cases hi with
      | method _ _ ht =>
        cases ht with
        | @intro c block _ _ hbound hc hl hpt _ hblock hblocks _ hs hcare _ =>
          have hvars : block = method.parameterVariables := by
            rw [Method.parameterVariables, hbound]
            simpa [← hpt] using parameterBlock_ok hl hblock
          rw [hpt, List.forall₂_map_left_iff] at hvs
          obtain ⟨frame, hd, hfit⟩ := Frame.Fits.declareAll .nil hl hblock hvs
          cases hf.symm.trans hd
          rw [hvars] at hblocks hfit
          exact ⟨rfl, .cons hfit .nil, h.models,
            .stmts hc hblocks (List.cons_ne_nil _ _) hs hcare⟩

/-- The calls that a statement makes. -/
theorem Proper.leads_stmt {s : Stmt} (h : w.Proper ⟨a, .stmt s, n, σ⟩)
    (hl : Leads ⟨a, .stmt s, n, σ⟩ m) : w.Proper m := by
  have hp : a.pass = w.pass := h.pass
  obtain ⟨c, d, hc, hb, hs, hcare⟩ := h.task.stmt_inv
  have hat := h.at hc hb
  cases hl with
  | expression =>
    rw [Stmt.walk] at hcare
    cases hs with
    | expression _ he => exact ⟨hp, h.fit, h.models, .expr hc hb he hcare.tail⟩
  | initial =>
    rw [Stmt.walk] at hcare
    cases hs with
    | declaration hd _ =>
      cases hd with
      | inferred he => exact ⟨hp, h.fit, h.models, .expr hc hb he hcare.tail⟩
      | given _ he _ => exact ⟨hp, h.fit, h.models, .expr hc hb he hcare.tail⟩
  | assigned _ =>
    rw [Stmt.walk] at hcare
    cases hs with
    | assignment _ _ hv _ => exact ⟨hp, h.fit, h.models, .expr hc hb hv hcare.tail.right⟩
  | assignedReceiver =>
    cases hs with
    | assignment _ ht _ _ =>
      cases ht with
      | member _ hr hv _ => exact absurd hv (hc.alone.memberOf_ne (hr.plain hc.alone) _ _)
  | assignedMember _ _ _ =>
    cases hs with
    | assignment _ ht _ _ =>
      cases ht with
      | member _ hr hv _ => exact absurd hv (hc.alone.memberOf_ne (hr.plain hc.alone) _ _)
  | condition =>
    rw [Stmt.walk] at hcare
    cases hs with
    | conditional he _ _ _ _ => exact ⟨hp, h.fit, h.models, .expr hc hb he hcare.tail.left⟩
  | @branch _ _ _ _ _ _ b _ he' =>
    rw [Stmt.walk] at hcare
    rw [hp] at he'
    cases hs with
    | conditional he _ _ hthen helse =>
      have hm := (((soundAt w _).eval hat he hcare.tail.left).ok he').1
      cases b with
      | true =>
        exact ⟨hp, h.fit, hm, .block hc hb (by simp) .nil hthen hcare.tail.right.left⟩
      | false =>
        exact ⟨hp, h.fit, hm, .block hc hb (by simp) .nil helse hcare.tail.right.right⟩
  | iterable =>
    rw [Stmt.walk] at hcare
    cases hs with
    | forEach hv _ _ _ => exact ⟨hp, h.fit, h.models, .expr hc hb hv hcare.tail.left⟩
  | iterations he =>
    rw [Stmt.walk] at hcare
    rw [hp] at he
    cases hs with
    | forEach hv _ _ hss =>
      have hm := (((soundAt w _).eval hat hv hcare.tail.left).ok he).1
      exact ⟨hp, h.fit, hm, .iterate hc hb hss hcare.tail.right⟩
  | whileLoop =>
    rw [Stmt.walk] at hcare
    cases hs with
    | whileLoop he htakes hss =>
      exact ⟨hp, h.fit, h.models, .loop hc hb he htakes hss hcare.tail.left hcare.tail.right⟩
  | returning =>
    rw [Stmt.walk] at hcare
    cases hs with
    | returning _ hv _ => exact ⟨hp, h.fit, h.models, .expr hc hb hv hcare.tail⟩

/-- The calls that the statements of a block make. -/
theorem Proper.leads_stmts {ss : List Stmt} (h : w.Proper ⟨a, .stmts ss, n, σ⟩)
    (hl : Leads ⟨a, .stmts ss, n, σ⟩ m) : w.Proper m := by
  have hp : a.pass = w.pass := h.pass
  cases h.task with
  | @stmts c _ hc hb hne hs hcare =>
    have hat := h.at hc hb
    cases hl with
    | first =>
      rw [walkStmts] at hcare
      cases hs with
      | cons hs _ => exact ⟨hp, h.fit, h.models, .stmt hc hb hne hs hcare.left⟩
    | @rest _ _ _ s _ locals _ hrun =>
      rw [walkStmts] at hcare
      rw [hp] at hrun
      cases hs with
      | @cons _ _ d _ hs hss =>
        obtain ⟨hm, hcomes⟩ := ((soundAt w _).exec hat (hb ▸ hne) hs hcare.left).ok hrun
        have hblocks : (c.extend d).blocks = (a.after s locals).blocks := by
          rw [Activation.after, hs.declared?_eq]
          cases d with
          | none => exact hb
          | some v => exact congrArg (Blocks.add v) hb
        refine ⟨hp, ?_, hm, .stmts (hc.extend (hs.plain hc.alone)) hblocks ?_ hss hcare.right⟩
        · exact hblocks ▸ hcomes
        · exact hblocks ▸ Context.extend_ne_nil (hb ▸ hne)

/-- The call that a block makes. -/
theorem Proper.leads_block {vars : List Variable} {frame : Frame} {ss : List Stmt}
    (h : w.Proper ⟨a, .block vars frame ss, n, σ⟩)
    (hl : Leads ⟨a, .block vars frame ss, n, σ⟩ m) : w.Proper m := by
  cases h.task with
  | @block c _ _ _ hc hb hplain hf hs hcare =>
    cases hl with
    | inside =>
      have hblocks : (c.enter vars).blocks = vars :: a.blocks := congrArg (vars :: ·) hb
      exact ⟨h.pass, .cons hf h.fit, h.models,
        .stmts (hc.enter hplain) hblocks (List.cons_ne_nil _ _) hs hcare⟩

/-- The calls that a loop over integers makes. -/
theorem Proper.leads_iterate {name : Name} {items : List Int} {ss : List Stmt}
    (h : w.Proper ⟨a, .iterate name items ss, n, σ⟩)
    (hl : Leads ⟨a, .iterate name items ss, n, σ⟩ m) : w.Proper m := by
  have hp : a.pass = w.pass := h.pass
  cases h.task with
  | @iterate c _ _ _ hc hb hs hcare =>
    have hat := h.at hc hb
    have hitem : ∀ v ∈ [c.blocks.item name], Ty.Plain v.type := by
      intro v hv
      rw [List.mem_singleton.mp hv]
      exact Ty.plain_type .integer
    have hframe (i : Int) : Frame.Fits (Holds w.lax) [c.blocks.item name] [(name, .integer i)] :=
      .cons ⟨rfl, .of_builtin rfl rfl⟩ .nil
    cases hl with
    | iteration =>
      have hvars : [c.blocks.item name] = [a.blocks.item name] := by rw [hb]
      exact ⟨hp, h.fit, h.models,
        .block hc hb (hvars ▸ hitem) (hvars ▸ hframe _) (hvars ▸ hs) hcare⟩
    | nextIteration hrun =>
      rw [hp] at hrun
      obtain ⟨hm, hcomes⟩ := ((soundAt w _).block hat hitem (hframe _) hs hcare).ok hrun
      exact ⟨hp, hb ▸ hcomes, hm, .iterate hc hb hs hcare⟩

/-- The calls that a conditional loop makes. -/
theorem Proper.leads_loop {e : Expr} {ss : List Stmt} (h : w.Proper ⟨a, .loop e ss, n, σ⟩)
    (hl : Leads ⟨a, .loop e ss, n, σ⟩ m) : w.Proper m := by
  have hp : a.pass = w.pass := h.pass
  cases h.task with
  | loop hc hb ht htakes hs hce hcs =>
    have hat := h.at hc hb
    cases hl with
    | loopCondition => exact ⟨hp, h.fit, h.models, .expr hc hb ht hce⟩
    | loopBody he =>
      rw [hp] at he
      have hm := (((soundAt w _).eval hat ht hce).ok he).1
      exact ⟨hp, h.fit, hm, .block hc hb (by simp) .nil hs hcs⟩
    | loopAgain he hrun =>
      rw [hp] at he hrun
      have hm := (((soundAt w _).eval hat ht hce).ok he).1
      obtain ⟨hm', hcomes⟩ :=
        ((soundAt w _).block (hat.of_models hm) (by simp) .nil hs hcs).ok hrun
      exact ⟨hp, hb ▸ hcomes, hm', .loop hc hb ht htakes hs hce hcs⟩

end Steps

/-- **Every step of a run leads from proper moments to proper moments.** -/
theorem Proper.leads {m m' : Moment} (h : w.Proper m) (hl : Leads m m') : w.Proper m' := by
  obtain ⟨a, task, n, σ⟩ := m
  cases task with
  | expr e => exact h.leads_expr hl
  | exprs es => exact h.leads_exprs hl
  | invocation r vs => exact h.leads_invocation hl
  | stmt s => exact h.leads_stmt hl
  | stmts ss => exact h.leads_stmts hl
  | block vars frame ss => exact h.leads_block hl
  | iterate name items ss => exact h.leads_iterate hl
  | loop e ss => exact h.leads_loop hl

/-- In a proper moment, what an expression finishes with is of the type it is annotated with. -/
theorem Proper.yields {m : Moment} (h : w.Proper m) {e : Expr} {v : Value} {τ : Store}
    (ht : m.task = .expr e)
    (he : eval m.activation.pass m.activation.locals m.fuel e m.store = .ok v τ) :
    Holds w.lax e.type? v := by
  have htask := h.task
  rw [ht] at htask
  obtain ⟨c, t, hc, hb, htyped, hcare⟩ := htask.expr_inv
  rw [h.pass] at he
  rw [htyped.type?_eq]
  exact (((soundAt w _).eval (h.at hc hb) htyped hcare).ok he).2

end Setting

end Parlance
