/-
What the text says of a moment.

While a method of the source runs, the moment is in a place of its body: what is to be done is what
the text has there, and the frames hold the variables that are in scope there, each made by the node
that makes it in the text.  There are as many frames as blocks around the place, and a new one for
each branch and iteration, which begins with what the block is entered with and has grown by the
declarations that have been passed since.

The evaluator knows nothing of places.  Every step of a run keeps the frames in line with them all
the same, for each step moves on in the text and makes the variables that the text has there.
-/
import Parlance.Proofs.Checking.Paths
import Parlance.Proofs.Running.Code
import Parlance.Proofs.Running.Changes
import Parlance.Proofs.Running.Places

namespace Parlance

/-! ### Expressions -/

/-- If expressions are to be evaluated, then such as are in order in that place of the check. -/
inductive Task.Typed (c : Context) : Task → Prop
  | expr {e : Expr} {t : Option Ty} (h : e.Typed c t) : Typed c (.expr e)
  | exprs {es : List Expr} {ts : List (Option Ty)} (h : Expr.AllTyped c es ts) :
      Typed c (.exprs es)
  | invocation {r : Routine} {vs : List Value} : Typed c (.invocation r vs)

section Expressions

variable {c : Context} {a : Activation} {n : Nat} {σ : Store} {m : Moment}

/-- The calls that an expression makes stay in its place. -/
theorem Expr.Typed.leads {e : Expr} {t : Option Ty} (h : e.Typed c t)
    (hl : Leads ⟨a, .expr e, n, σ⟩ m) : m.activation = a ∧ m.task.Typed c := by
  cases h with
  | literal _ => cases hl
  | group _ he =>
    cases hl with
    | group => exact ⟨rfl, .expr he⟩
  | binary hl' hr _ =>
    cases hl with
    | left => exact ⟨rfl, .expr hl'⟩
    | right _ _ => exact ⟨rfl, .expr hr⟩
  | access _ _ => cases hl
  | member _ hr _ _ =>
    cases hl with
    | memberReceiver => exact ⟨rfl, .expr hr⟩
  | call has _ _ =>
    cases hl with
    | callArguments => exact ⟨rfl, .exprs has⟩
    | callInvoke _ _ => exact ⟨rfl, .invocation⟩
  | memberCall has _ hr _ _ =>
    cases hl with
    | memberCallReceiver => exact ⟨rfl, .expr hr⟩
    | memberCallArguments _ => exact ⟨rfl, .exprs has⟩
    | memberCallInvoke _ _ _ _ => exact ⟨rfl, .invocation⟩

/-- So do the calls that a list of expressions makes. -/
theorem Expr.AllTyped.leads {es : List Expr} {ts : List (Option Ty)} (h : Expr.AllTyped c es ts)
    (hl : Leads ⟨a, .exprs es, n, σ⟩ m) : m.activation = a ∧ m.task.Typed c := by
  cases h with
  | nil => cases hl
  | cons he hes =>
    cases hl with
    | head => exact ⟨rfl, .expr he⟩
    | tail _ => exact ⟨rfl, .exprs hes⟩

/-- And the calls that a statement makes to evaluate expressions. -/
theorem Stmt.Typed.leads {s : Stmt} {d : Option Variable} (h : s.Typed c d)
    (hl : Leads ⟨a, .stmt s, n, σ⟩ m) :
    m.activation = a ∧ (m.task.Typed c ∨
      (∃ e ss ss', ∃ b : Bool, s = .conditional e ss ss' ∧
        m.task = .block [] [] (if b then ss else ss')) ∨
      (∃ name e items ss, s = .forEach name e ss ∧ m.task = .iterate name items ss) ∨
      ∃ e ss, s = .whileLoop e ss ∧ m.task = .loop e ss) := by
  cases h with
  | expression _ he =>
    cases hl with
    | expression => exact ⟨rfl, .inl (.expr he)⟩
  | declaration hd _ =>
    cases hl with
    | initial =>
      obtain ⟨u, he⟩ := hd.value_typed
      exact ⟨rfl, .inl (.expr he)⟩
  | assignment _ ht hv _ =>
    cases hl with
    | assigned _ => exact ⟨rfl, .inl (.expr hv)⟩
    | assignedReceiver =>
      cases ht with
      | member _ hr _ _ => exact ⟨rfl, .inl (.expr hr)⟩
    | assignedMember _ _ _ => exact ⟨rfl, .inl (.expr hv)⟩
  | conditional hc _ _ _ _ =>
    cases hl with
    | condition => exact ⟨rfl, .inl (.expr hc)⟩
    | branch _ => exact ⟨rfl, .inr (.inl ⟨_, _, _, _, rfl, rfl⟩)⟩
  | forEach hv _ _ _ =>
    cases hl with
    | iterable => exact ⟨rfl, .inl (.expr hv)⟩
    | iterations _ => exact ⟨rfl, .inr (.inr (.inl ⟨_, _, _, _, rfl, rfl⟩))⟩
  | whileLoop _ _ _ =>
    cases hl with
    | whileLoop => exact ⟨rfl, .inr (.inr (.inr ⟨_, _, rfl, rfl⟩))⟩
  | returning _ hv _ =>
    cases hl with
    | returning => exact ⟨rfl, .inl (.expr hv)⟩

end Expressions

/-! ### Statements -/

/-- The frames hold the variables that are in scope in the place, each made by the node that makes
it in the text. -/
structure Activation.Fits (m : Method) (a : Activation) (q : Place) : Prop where
  blocks : a.blocks = m.blocks q.path
  makers : q.makers = m.makers q.path
  names : a.locals.names = a.blocks.map (List.map Variable.name)

/-- What is to be done in a place of a method, when `c` is the place of the check for its body: some
part of the statement that stands there, or the statements from there on. -/
inductive Method.Does (m : Method) (c : Context) (p : Path) : Task → Prop
  | typed {task : Task} {s : Stmt} {ss : List Stmt} (hs : p.rest? m.body = some (s :: ss))
      (hn : task.nodes ⊆ s.walk) (h : task.Typed (m.context c p)) : Does m c p task
  | stmt {s : Stmt} {ss : List Stmt} (h : p.rest? m.body = some (s :: ss)) : Does m c p (.stmt s)
  | stmts {ss : List Stmt} (h : p.rest? m.body = some ss) : Does m c p (.stmts ss)
  | iterate {name : Name} {e : Expr} {items : List Int} {ss after : List Stmt}
      (h : p.rest? m.body = some (.forEach name e ss :: after)) :
      Does m c p (.iterate name items ss)
  | loop {e : Expr} {ss after : List Stmt}
      (h : p.rest? m.body = some (.whileLoop e ss :: after)) : Does m c p (.loop e ss)

/-- A moment of a running method, in a place of its body or about to enter the block there. -/
inductive Moment.Inside (m : Method) (c : Context) : Moment → Place → Prop
  | here {a : Activation} {task : Task} {n : Nat} {σ : Store} {q : Place} {ss : List Stmt}
      (hr : q.path.rest? m.body = some ss) (hf : a.Fits m q) (hd : m.Does c q.path task) :
      Inside m c ⟨a, task, n, σ⟩ q
  | block {a : Activation} {vars : List Variable} {frame : Frame} {ss : List Stmt} {n : Nat}
      {σ : Store} {q : Place} (hr : q.path.rest? m.body = some ss)
      (hf : (a.enter vars frame).Fits m q.enter) : Inside m c ⟨a, .block vars frame ss, n, σ⟩ q

namespace Moment.Inside

variable {method : Method} {c : Context} {a : Activation} {q q' : Place} {n : Nat} {σ : Store}
variable {m : Moment}

/-- The calls that a statement makes. -/
theorem moves_stmt {s : Stmt} {ss : List Stmt} (hchecked : method.Checked c)
    (hr : q.path.rest? method.body = some (s :: ss)) (hf : a.Fits method q)
    (hm : Moves (⟨a, .stmt s, n, σ⟩, q) (m, q')) : Inside method c m q' := by
  obtain ⟨a', task', n', σ'⟩ := m
  cases hm with
  | stay hl hstays =>
    obtain ⟨ha, htask⟩ := (hchecked.stmt hr).leads hl
    cases ha
    rcases htask with h | ⟨_, _, _, _, -, h⟩ | ⟨_, _, _, _, rfl, h⟩ | ⟨_, _, rfl, h⟩
    · exact .here hr hf (.typed hr (hl.nodes_subset fun _ _ => nofun) h)
    · cases h
      cases hstays
    · cases h
      exact .here hr hf (.iterate hr)
    · cases h
      exact .here hr hf (.loop hr)
  | @branch _ _ _ e ss ss' b _ _ he =>
    have hblocks : (a.enter [] []).Fits method (q.branch b).enter := by
      cases b <;> exact ⟨congrArg ([] :: ·) hf.blocks, congrArg ([] :: ·) hf.makers,
        congrArg ([] :: ·) hf.names⟩
    refine .block ?_ hblocks
    cases b with
    | true => exact Path.rest?_inThen.mpr ⟨_, _, _, hr⟩
    | false => exact Path.rest?_inElse.mpr ⟨_, _, _, hr⟩

/-- The calls that the statements of a block make. -/
theorem moves_stmts {ss : List Stmt} (hchecked : method.Checked c)
    (hr : q.path.rest? method.body = some ss) (hf : a.Fits method q)
    (hm : Moves (⟨a, .stmts ss, n, σ⟩, q) (m, q')) : Inside method c m q' := by
  cases hm with
  | stay hl hstays =>
    cases hl with
    | first => exact .here hr hf (.stmt hr)
    | rest _ => cases hstays
  | @rest _ _ _ s ss locals _ _ hs =>
    have hr' : (q.after s).path.rest? method.body = some ss := Path.rest?_next.mpr ⟨s, hr⟩
    have hstmt := Path.stmt?_of_rest? hr
    have hdeclares : s.declares? = s.declared?.map Variable.name := by
      cases s with
      | declaration name typeName value bound =>
        cases hchecked.stmt hr with
        | declaration _ hv => exact congrArg some (Context.name_of_declare hv).symm
      | _ => rfl
    have hblocks : (a.after s locals).blocks = grow s.declared? a.blocks := by
      cases hd : s.declared? with
      | none => simp [Activation.after, hd]
      | some v => simp [Activation.after, hd, Blocks.add_eq]
    refine .here hr' ⟨?_, ?_, ?_⟩ (.stmts hr')
    · rw [hblocks, hf.blocks, Place.after, Method.blocks, hstmt, Option.bind_some]
    · rw [Place.after, Method.makers, hstmt, Option.bind_some, hf.makers]
    · have hnames : locals.names = grow s.declares? a.locals.names :=
        ((keepsAt _).exec _ _ s hs).2
      rw [hblocks, map_grow, ← hf.names, ← hdeclares]
      exact hnames

/-- The calls that a loop over integers makes. -/
theorem moves_iterate {name : Name} {e : Expr} {items : List Int} {ss after : List Stmt}
    (hr : q.path.rest? method.body = some (.forEach name e ss :: after)) (hf : a.Fits method q)
    (hm : Moves (⟨a, .iterate name items ss, n, σ⟩, q) (m, q')) : Inside method c m q' := by
  cases hm with
  | stay hl hstays =>
    cases hl with
    | iteration => cases hstays
    | nextIteration hb =>
      have hnames := ((keepsAt _).block (d := False) _ _ _ _ hb).2
      exact .here hr ⟨hf.blocks, hf.makers, hnames.trans hf.names⟩ (.iterate hr)
  | iteration =>
    have hstmt := Path.stmt?_of_rest? hr
    refine .block (Path.rest?_inFor.mpr ⟨_, _, _, hr⟩) ⟨?_, ?_, ?_⟩
    · simp only [Activation.enter, Place.enter, Method.blocks, hstmt, hf.blocks]
    · simp only [Place.enter, Path.opens, Method.makers, hf.makers]
    · exact congrArg ([name] :: ·) hf.names

/-- The calls that a conditional loop makes. -/
theorem moves_loop {e : Expr} {ss after : List Stmt} (hchecked : method.Checked c)
    (hr : q.path.rest? method.body = some (.whileLoop e ss :: after)) (hf : a.Fits method q)
    (hm : Moves (⟨a, .loop e ss, n, σ⟩, q) (m, q')) : Inside method c m q' := by
  cases hm with
  | stay hl hstays =>
    cases hl with
    | loopCondition =>
      cases hchecked.stmt hr with
      | whileLoop he _ _ =>
        refine .here hr hf (.typed hr ?_ (.expr he))
        intro x hx
        exact List.mem_cons_of_mem _ (List.mem_append_left _ hx)
    | loopBody _ => cases hstays
    | loopAgain _ hb =>
      have hnames := ((keepsAt _).block (d := False) _ _ _ _ hb).2
      exact .here hr ⟨hf.blocks, hf.makers, hnames.trans hf.names⟩ (.loop hr)
  | loopBody _ =>
    exact .block (Path.rest?_inWhile.mpr ⟨_, _, hr⟩) ⟨congrArg ([] :: ·) hf.blocks,
      congrArg ([] :: ·) hf.makers, congrArg ([] :: ·) hf.names⟩

/-- **The frames stay in line with the text**: every step of a run that is not the call of a
function leads from a place of the method to a place of the method. -/
theorem moves {m' : Moment} (h : Inside method c m q) (hchecked : method.Checked c)
    (hcall : ∀ r vs, m.task ≠ .invocation r vs) (hm : Moves (m, q) (m', q')) :
    Inside method c m' q' := by
  cases h with
  | block hr hf =>
    cases hm with
    | stay hl hstays =>
      cases hl
      cases hstays
    | inside => exact .here hr hf (.stmts hr)
  | here hr hf hd =>
    cases hd with
    | typed hs hn ht =>
      have hpart (hl : Leads _ m') := List.Subset.trans (hl.nodes_subset hcall) hn
      cases ht with
      | expr he =>
        cases hm with
        | stay hl _ =>
          obtain ⟨rfl, ht⟩ := he.leads hl
          exact .here hr hf (.typed hs (hpart hl) ht)
      | exprs hes =>
        cases hm with
        | stay hl _ =>
          obtain ⟨rfl, ht⟩ := hes.leads hl
          exact .here hr hf (.typed hs (hpart hl) ht)
      | invocation => exact absurd rfl (hcall _ _)
    | stmt hr => exact moves_stmt hchecked hr hf hm
    | stmts hr => exact moves_stmts hchecked hr hf hm
    | iterate hr => exact moves_iterate hr hf hm
    | loop hr => exact moves_loop hchecked hr hf hm

end Moment.Inside

end Parlance
