/-
What a run on the premises of a host goes through.

A moment is proper for a guest when its frames fit the blocks of its activation, its store models
the guest, and its task passed the check in a covered place with these blocks.  Every step of a run
leads from proper moments to proper ones, unless it enters a function of the host: what such a
function goes through is apart from the program, as the host has promised.

In a proper moment the members that the task looks up are found.
-/
import Parlance.Proofs.Members.Soundness

namespace Parlance

namespace Guest

variable (w : Guest)

/-- The task passed the check, in a covered place with these blocks. -/
inductive Checked (blocks : Blocks) : Task → Prop
  | expr {c : Context} {e : Expr} {t : Option Ty} (hc : w.Covers c) (hb : c.blocks = blocks)
      (ht : e.Typed c t) (hmind : w.Minds e.walk) : Checked blocks (.expr e)
  | exprs {c : Context} {es : List Expr} {ts : List (Option Ty)} (hc : w.Covers c)
      (hb : c.blocks = blocks) (ht : Expr.AllTyped c es ts) (hmind : w.Minds (walkExprs es)) :
      Checked blocks (.exprs es)
  | invocation {r : Routine} {vs : List Value} {t : Option Ty} (ha : w.Answers r vs t) :
      Checked blocks (.invocation r vs)
  | stmt {c : Context} {s : Stmt} {d : Option Variable} (hc : w.Covers c)
      (hb : c.blocks = blocks) (hne : blocks ≠ []) (hs : s.Typed c d) (hmind : w.Minds s.walk) :
      Checked blocks (.stmt s)
  | stmts {c : Context} {ss : List Stmt} (hc : w.Covers c) (hb : c.blocks = blocks)
      (hne : blocks ≠ []) (hs : Stmt.AllTyped c ss) (hmind : w.Minds (walkStmts ss)) :
      Checked blocks (.stmts ss)
  | block {c : Context} {vars : List Variable} {frame : Frame} {ss : List Stmt}
      (hc : w.Covers c) (hb : c.blocks = blocks) (hf : Frame.Fits w.premises.Fits vars frame)
      (hs : Stmt.AllTyped (c.enter vars) ss) (hmind : w.Minds (walkStmts ss)) :
      Checked blocks (.block vars frame ss)
  | iterate {c : Context} {name : Name} {items : List Int} {ss : List Stmt} (hc : w.Covers c)
      (hb : c.blocks = blocks) (hs : Stmt.AllTyped (c.enter [c.blocks.item name]) ss)
      (hmind : w.Minds (walkStmts ss)) : Checked blocks (.iterate name items ss)
  | loop {c : Context} {e : Expr} {t : Option Ty} {ss : List Stmt} (hc : w.Covers c)
      (hb : c.blocks = blocks) (ht : e.Typed c t) (hs : Stmt.AllTyped (c.enter []) ss)
      (hme : w.Minds e.walk) (hms : w.Minds (walkStmts ss)) : Checked blocks (.loop e ss)

variable {w} {blocks : Blocks}

theorem Checked.expr_inv {e : Expr} (h : w.Checked blocks (.expr e)) :
    ∃ c t, w.Covers c ∧ c.blocks = blocks ∧ e.Typed c t ∧ w.Minds e.walk := by
  cases h with
  | expr hc hb ht hmind => exact ⟨_, _, hc, hb, ht, hmind⟩

theorem Checked.stmt_inv {s : Stmt} (h : w.Checked blocks (.stmt s)) :
    ∃ c d, w.Covers c ∧ c.blocks = blocks ∧ s.Typed c d ∧ w.Minds s.walk := by
  cases h with
  | stmt hc hb _ hs hmind => exact ⟨_, _, hc, hb, hs, hmind⟩

variable (w)

/-- A moment of a checked program, in its own code. -/
structure Proper (m : Moment) : Prop where
  pass : m.activation.pass = w.pass
  fit : m.activation.locals.Fit w.premises.Fits m.activation.blocks
  models : w.Models m.store
  task : w.Checked m.activation.blocks m.task

variable {w}

/-- In a proper moment, the place that its task passed the check in. -/
theorem Proper.at {m : Moment} (h : w.Proper m) {c : Context} (hc : w.Covers c)
    (hb : c.blocks = m.activation.blocks) : w.At c m.activation.locals m.store :=
  ⟨hc, hb ▸ h.fit, h.models⟩

/-! ### Steps -/

section Steps

variable {a : Activation} {n : Nat} {σ : Store} {m : Moment}

/-- The calls that an expression makes. -/
theorem Proper.leads_expr {e : Expr} (h : w.Proper ⟨a, .expr e, n, σ⟩)
    (hl : Leads ⟨a, .expr e, n, σ⟩ m) : w.Proper m := by
  have hp : a.pass = w.pass := h.pass
  obtain ⟨c, t, hc, hb, ht, hmind⟩ := h.task.expr_inv
  have hat := h.at hc hb
  cases hl with
  | group =>
    rw [Expr.walk] at hmind
    cases ht with
    | group _ he => exact ⟨hp, h.fit, h.models, .expr hc hb he hmind.tail⟩
  | left =>
    rw [Expr.walk] at hmind
    cases ht with
    | binary hl _ _ => exact ⟨hp, h.fit, h.models, .expr hc hb hl hmind.tail.left⟩
  | right he _ =>
    rw [Expr.walk] at hmind
    rw [hp] at he
    cases ht with
    | binary hl hr _ =>
      have hm := ((w.soundAt _).eval hat hl hmind.tail.left he).1
      exact ⟨hp, h.fit, hm, .expr hc hb hr hmind.tail.right⟩
  | memberReceiver =>
    rw [Expr.walk] at hmind
    cases ht with
    | member _ hr _ _ => exact ⟨hp, h.fit, h.models, .expr hc hb hr hmind.tail⟩
  | callArguments =>
    rw [Expr.walk] at hmind
    cases ht with
    | call has _ _ => exact ⟨hp, h.fit, h.models, .exprs hc hb has hmind.tail⟩
  | callInvoke has hr =>
    rw [Expr.walk] at hmind
    rw [hp] at has hr
    cases ht with
    | call hts hf htakes =>
      obtain ⟨hm, hvs⟩ := (w.soundAt _).evalAll hat hts hmind.tail has
      have hu := hmind.head.2
      rw [← hvs.length_eq] at hr
      exact ⟨hp, h.fit, hm, .invocation (hc.scopeFunction hm hf (hts.length_eq ▸ hu)
        (Premises.fits_moved htakes hvs) hr)⟩
  | memberCallReceiver =>
    rw [Expr.walk] at hmind
    cases ht with
    | memberCall has _ hr _ _ => exact ⟨hp, h.fit, h.models, .expr hc hb hr hmind.tail.left⟩
  | memberCallArguments he =>
    rw [Expr.walk] at hmind
    rw [hp] at he
    cases ht with
    | memberCall has _ hr _ _ =>
      have hm := ((w.soundAt _).eval hat hr hmind.tail.left he).1
      exact ⟨hp, h.fit, hm, .exprs hc hb has hmind.tail.right⟩
  | memberCallInvoke he has hid hfound =>
    rw [Expr.walk] at hmind
    rw [hp] at he has hid
    cases ht with
    | memberCall hts _ hr hf htakes =>
      have hshared := hmind.head.1 _ hr.type?_eq
      obtain ⟨hm, hx⟩ := (w.soundAt _).eval hat hr hmind.tail.left he
      obtain ⟨hm', hvs⟩ := (w.soundAt _).evalAll (hat.of_models hm) hts hmind.tail.right has
      rw [← hvs.length_eq] at hfound
      exact ⟨hp, h.fit, hm', .invocation (hc.memberFunction_answers hf (hts.length_eq ▸ hshared)
        hx hm' hm' hid hfound (Premises.fits_moved htakes hvs))⟩

/-- The calls that a list of expressions makes. -/
theorem Proper.leads_exprs {es : List Expr} (h : w.Proper ⟨a, .exprs es, n, σ⟩)
    (hl : Leads ⟨a, .exprs es, n, σ⟩ m) : w.Proper m := by
  have hp : a.pass = w.pass := h.pass
  cases h.task with
  | exprs hc hb ht hmind =>
    have hat := h.at hc hb
    cases hl with
    | head =>
      rw [walkExprs] at hmind
      cases ht with
      | cons he _ => exact ⟨hp, h.fit, h.models, .expr hc hb he hmind.left⟩
    | tail he' =>
      rw [walkExprs] at hmind
      rw [hp] at he'
      cases ht with
      | cons he hes =>
        have hm := ((w.soundAt _).eval hat he hmind.left he').1
        exact ⟨hp, h.fit, hm, .exprs hc hb hes hmind.right⟩

/-- The call that a function makes. One of the host goes its own way. -/
theorem Proper.leads_invocation {r : Routine} {vs : List Value}
    (h : w.Proper ⟨a, .invocation r vs, n, σ⟩) (hl : Leads ⟨a, .invocation r vs, n, σ⟩ m) :
    w.Proper m ∨ w.premises.Apart m := by
  cases h.task with
  | invocation ha =>
    cases ha with
    | host hk => exact .inr (hk.apart _ _ _ _ h.models.kept hl)
    | own hi hvs =>
      left
      cases hl with
      | @body _ _ _ _ method _ _ _ hf =>
        cases hi with
        | method _ _ ht =>
          cases ht with
          | @intro c block _ _ hbound hc hl hpt _ hblock hblocks _ hs hmind =>
            have hvars : block = method.parameterVariables := by
              rw [Method.parameterVariables, hbound]
              simpa [← hpt] using parameterBlock_ok hl hblock
            rw [hpt, List.forall₂_map_left_iff] at hvs
            obtain ⟨frame, hd, hfit⟩ := Frame.Fits.declareAll .nil hl hblock hvs
            cases hf.symm.trans hd
            rw [hvars] at hblocks hfit
            exact ⟨rfl, .cons hfit .nil, h.models,
              .stmts hc hblocks (List.cons_ne_nil _ _) hs hmind⟩

/-- The calls that a statement makes. -/
theorem Proper.leads_stmt {s : Stmt} (h : w.Proper ⟨a, .stmt s, n, σ⟩)
    (hl : Leads ⟨a, .stmt s, n, σ⟩ m) : w.Proper m := by
  have hp : a.pass = w.pass := h.pass
  obtain ⟨c, d, hc, hb, hs, hmind⟩ := h.task.stmt_inv
  have hat := h.at hc hb
  rw [Stmt.walk.eq_def] at hmind
  cases hl with
  | expression =>
    cases hs with
    | expression _ he => exact ⟨hp, h.fit, h.models, .expr hc hb he hmind.tail⟩
  | initial =>
    cases hs with
    | declaration hd _ =>
      cases hd with
      | inferred he => exact ⟨hp, h.fit, h.models, .expr hc hb he hmind.tail⟩
      | given _ he _ => exact ⟨hp, h.fit, h.models, .expr hc hb he hmind.tail⟩
  | assigned _ =>
    cases hs with
    | assignment _ _ hv _ => exact ⟨hp, h.fit, h.models, .expr hc hb hv hmind.tail.right⟩
  | assignedReceiver =>
    cases hs with
    | assignment _ ht _ _ =>
      have hmind' := hmind.tail.left
      rw [Expr.walk] at hmind'
      cases ht with
      | member _ hr _ _ => exact ⟨hp, h.fit, h.models, .expr hc hb hr hmind'.tail⟩
  | assignedMember hx _ _ =>
    rw [hp] at hx
    cases hs with
    | assignment _ ht hv _ =>
      have hmind' := hmind.tail.left
      rw [Expr.walk] at hmind'
      cases ht with
      | member _ hr _ _ =>
        have hm := ((w.soundAt _).eval hat hr hmind'.tail hx).1
        exact ⟨hp, h.fit, hm, .expr hc hb hv hmind.tail.right⟩
  | condition =>
    cases hs with
    | conditional he _ _ _ _ => exact ⟨hp, h.fit, h.models, .expr hc hb he hmind.tail.left⟩
  | @branch _ _ _ _ _ _ b _ he' =>
    rw [hp] at he'
    cases hs with
    | conditional he _ _ hthen helse =>
      have hm := ((w.soundAt _).eval hat he hmind.tail.left he').1
      cases b with
      | true => exact ⟨hp, h.fit, hm, .block hc hb .nil hthen hmind.tail.right.left⟩
      | false => exact ⟨hp, h.fit, hm, .block hc hb .nil helse hmind.tail.right.right⟩
  | iterable =>
    cases hs with
    | forEach hv _ _ _ => exact ⟨hp, h.fit, h.models, .expr hc hb hv hmind.tail.left⟩
  | iterations he =>
    rw [hp] at he
    cases hs with
    | forEach hv _ _ hss =>
      have hm := ((w.soundAt _).eval hat hv hmind.tail.left he).1
      exact ⟨hp, h.fit, hm, .iterate hc hb hss hmind.tail.right⟩
  | whileLoop =>
    cases hs with
    | whileLoop he _ hss =>
      exact ⟨hp, h.fit, h.models, .loop hc hb he hss hmind.tail.left hmind.tail.right⟩
  | returning =>
    cases hs with
    | returning _ hv _ => exact ⟨hp, h.fit, h.models, .expr hc hb hv hmind.tail⟩

/-- The calls that the statements of a block make. -/
theorem Proper.leads_stmts {ss : List Stmt} (h : w.Proper ⟨a, .stmts ss, n, σ⟩)
    (hl : Leads ⟨a, .stmts ss, n, σ⟩ m) : w.Proper m := by
  have hp : a.pass = w.pass := h.pass
  cases h.task with
  | @stmts c _ hc hb hne hs hmind =>
    have hat := h.at hc hb
    cases hl with
    | first =>
      rw [walkStmts] at hmind
      cases hs with
      | cons hs _ => exact ⟨hp, h.fit, h.models, .stmt hc hb hne hs hmind.left⟩
    | @rest _ _ _ s _ locals _ hrun =>
      rw [walkStmts] at hmind
      rw [hp] at hrun
      cases hs with
      | @cons _ _ d _ hs hss =>
        obtain ⟨hm, hcomes⟩ := (w.soundAt _).exec hat (hb ▸ hne) hs hmind.left hrun
        have hblocks : (c.extend d).blocks = (a.after s locals).blocks := by
          rw [Activation.after, hs.declared?_eq]
          cases d with
          | none => exact hb
          | some v => exact congrArg (Blocks.add v) hb
        refine ⟨hp, ?_, hm, .stmts (hc.extend d) hblocks ?_ hss hmind.right⟩
        · exact hblocks ▸ hcomes
        · exact hblocks ▸ Context.extend_ne_nil (hb ▸ hne)

/-- The call that a block makes. -/
theorem Proper.leads_block {vars : List Variable} {frame : Frame} {ss : List Stmt}
    (h : w.Proper ⟨a, .block vars frame ss, n, σ⟩)
    (hl : Leads ⟨a, .block vars frame ss, n, σ⟩ m) : w.Proper m := by
  cases h.task with
  | @block c _ _ _ hc hb hf hs hmind =>
    cases hl with
    | inside =>
      have hblocks : (c.enter vars).blocks = vars :: a.blocks := congrArg (vars :: ·) hb
      exact ⟨h.pass, .cons hf h.fit, h.models,
        .stmts (hc.enter vars) hblocks (List.cons_ne_nil _ _) hs hmind⟩

/-- The calls that a loop over integers makes. -/
theorem Proper.leads_iterate {name : Name} {items : List Int} {ss : List Stmt}
    (h : w.Proper ⟨a, .iterate name items ss, n, σ⟩)
    (hl : Leads ⟨a, .iterate name items ss, n, σ⟩ m) : w.Proper m := by
  have hp : a.pass = w.pass := h.pass
  cases h.task with
  | @iterate c _ _ _ hc hb hs hmind =>
    have hat := h.at hc hb
    cases hl with
    | iteration =>
      have hvars : [c.blocks.item name] = [a.blocks.item name] := by rw [hb]
      exact ⟨hp, h.fit, h.models, .block hc hb (hvars ▸ fits_item _ _ _) (hvars ▸ hs) hmind⟩
    | nextIteration hrun =>
      rw [hp] at hrun
      obtain ⟨hm, hcomes⟩ := (w.soundAt _).block hat (fits_item _ _ _) hs hmind hrun
      exact ⟨hp, hb ▸ hcomes, hm, .iterate hc hb hs hmind⟩

/-- The calls that a conditional loop makes. -/
theorem Proper.leads_loop {e : Expr} {ss : List Stmt} (h : w.Proper ⟨a, .loop e ss, n, σ⟩)
    (hl : Leads ⟨a, .loop e ss, n, σ⟩ m) : w.Proper m := by
  have hp : a.pass = w.pass := h.pass
  cases h.task with
  | loop hc hb ht hs hme hms =>
    have hat := h.at hc hb
    cases hl with
    | loopCondition => exact ⟨hp, h.fit, h.models, .expr hc hb ht hme⟩
    | loopBody he =>
      rw [hp] at he
      have hm := ((w.soundAt _).eval hat ht hme he).1
      exact ⟨hp, h.fit, hm, .block hc hb .nil hs hms⟩
    | loopAgain he hrun =>
      rw [hp] at he hrun
      have hm := ((w.soundAt _).eval hat ht hme he).1
      obtain ⟨hm', hcomes⟩ := (w.soundAt _).block (hat.of_models hm) .nil hs hms hrun
      exact ⟨hp, hb ▸ hcomes, hm', .loop hc hb ht hs hme hms⟩

end Steps

/-- **Every step of a run leads from proper moments to proper ones, or into the host.** -/
theorem Proper.leads {m m' : Moment} (h : w.Proper m) (hl : Leads m m') :
    w.Proper m' ∨ w.premises.Apart m' := by
  obtain ⟨a, task, n, σ⟩ := m
  cases task with
  | expr e => exact .inl (h.leads_expr hl)
  | exprs es => exact .inl (h.leads_exprs hl)
  | invocation r vs => exact h.leads_invocation hl
  | stmt s => exact .inl (h.leads_stmt hl)
  | stmts ss => exact .inl (h.leads_stmts hl)
  | block vars frame ss => exact .inl (h.leads_block hl)
  | iterate name items ss => exact .inl (h.leads_iterate hl)
  | loop e ss => exact .inl (h.leads_loop hl)

end Guest

/-! ### What a moment looks up -/

/-- The member variable that the value is said to have is found in the store. -/
def Store.HasMember (σ : Store) (pass : Pass) (v : Value) (name : Name) : Prop :=
  ∃ id s, σ.membersOfValue pass.registry v = .ok id ∧ σ.memberVariable id name = .ok s

/-- The member function, with so many parameters, that the value is said to have is found in the
store. -/
def Store.HasMemberFunction (σ : Store) (pass : Pass) (v : Value) (name : Name) (arity : Nat) :
    Prop :=
  ∃ id r, σ.membersOfValue pass.registry v = .ok id ∧ σ.memberFunction id name arity = .ok r

/-- The receiver has the member that the moment is about to look up: that of an access or of the
target of an assignment when the receiver has come to a value, that of a call when the arguments
have come to theirs. A value of kind `Nil` need not have it. -/
def Moment.FindsMember (m : Moment) : Prop :=
  match m.task with
  | .expr (.member receiver name _ _) | .stmt (.assignment (.member receiver name _ _) _) =>
    ∀ n v τ, eval m.activation.pass m.activation.locals n receiver m.store = .ok v τ →
      v.kind ≠ Builtin.nil.name → τ.HasMember m.activation.pass v name
  | .expr (.memberCall receiver name arguments _ _) =>
    ∀ n v τ k vs υ, eval m.activation.pass m.activation.locals n receiver m.store = .ok v τ →
      evalAll m.activation.pass m.activation.locals k arguments τ = .ok vs υ →
      v.kind ≠ Builtin.nil.name → υ.HasMemberFunction m.activation.pass v name (vs.length + 1)
  | _ => True

namespace Guest

variable {w : Guest} {blocks : Blocks}

/-- The receiver of a member in a covered place has it. -/
theorem At.member_found {c : Context} {locals : Locals} {σ τ : Store} {receiver : Expr}
    {name : Name} {bound : Option Variable} {u t : Option Ty} {n : Nat} {v : Value}
    (h : w.At c locals σ) (ht : (Expr.member receiver name bound u).Typed c t)
    (hmind : w.Minds (Expr.member receiver name bound u).walk)
    (he : eval w.pass locals n receiver σ = .ok v τ) (hne : v.kind ≠ Builtin.nil.name) :
    τ.HasMember w.pass v name := by
  rw [Expr.walk] at hmind
  cases ht with
  | member _ hr hv _ =>
    obtain ⟨hm, hx⟩ := (w.soundAt _).eval h hr hmind.tail he
    exact h.covers.memberVariable_found hv (hmind.head.1 _ hr.type?_eq) hx hm hne

/-- The receiver of a call in a covered place has the function. -/
theorem At.memberFunction_found {c : Context} {locals : Locals} {σ τ υ : Store} {receiver : Expr}
    {name : Name} {arguments : List Expr} {bound : Option Function} {u t : Option Ty}
    {n k : Nat} {v : Value} {vs : List Value} (h : w.At c locals σ)
    (ht : (Expr.memberCall receiver name arguments bound u).Typed c t)
    (hmind : w.Minds (Expr.memberCall receiver name arguments bound u).walk)
    (he : eval w.pass locals n receiver σ = .ok v τ)
    (has : evalAll w.pass locals k arguments τ = .ok vs υ) (hne : v.kind ≠ Builtin.nil.name) :
    υ.HasMemberFunction w.pass v name (vs.length + 1) := by
  rw [Expr.walk] at hmind
  cases ht with
  | memberCall hts _ hr hf _ =>
    obtain ⟨hm, hx⟩ := (w.soundAt _).eval h hr hmind.tail.left he
    obtain ⟨hm', hvs⟩ := (w.soundAt _).evalAll (h.of_models hm) hts hmind.tail.right has
    rw [← hvs.length_eq]
    exact h.covers.memberFunction_found hf (hts.length_eq ▸ hmind.head.1 _ hr.type?_eq) hx hm' hne

/-- **In a proper moment the receiver has the member that is looked up.** -/
theorem Proper.findsMember {m : Moment} (h : w.Proper m) : m.FindsMember := by
  obtain ⟨a, task, fuel, σ⟩ := m
  have hp : a.pass = w.pass := h.pass
  unfold Moment.FindsMember
  cases task with
  | expr e =>
    obtain ⟨c, t, hc, hb, ht, hmind⟩ := h.task.expr_inv
    cases e with
    | member =>
      intro n v τ he hne
      exact hp ▸ (h.at hc hb).member_found ht hmind (hp ▸ he) hne
    | memberCall =>
      intro n v τ k vs υ he has hne
      exact hp ▸ (h.at hc hb).memberFunction_found ht hmind (hp ▸ he) (hp ▸ has) hne
    | _ => trivial
  | stmt s =>
    obtain ⟨c, d, hc, hb, hs, hmind⟩ := h.task.stmt_inv
    cases s with
    | assignment target value =>
      rw [Stmt.walk] at hmind
      cases hs with
      | assignment ha ht hv _ =>
        cases target with
        | member =>
          intro n v τ he hne
          exact hp ▸ (h.at hc hb).member_found ht hmind.tail.left (hp ▸ he) hne
        | _ => trivial
    | _ => trivial
  | _ => trivial

end Guest

end Parlance
