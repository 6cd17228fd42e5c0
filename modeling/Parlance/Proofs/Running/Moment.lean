/-
The moments of a run.

The evaluator answers what a program comes to and says nothing of what happens on the way.  A
moment is what one call of one of its functions is given: the activation of the method
around it, the piece of the program to be evaluated, the fuel and the store.  One moment
leads to another when the first call makes the second: there is a rule for each call in the
evaluator, and its premises are that the calls made before it have come to the results that
make the evaluator go on to it.  They are equations about the evaluator itself, so what is
reached from the beginning of a run is what the run goes through, of any length and whether
or not it ends.

Beside its frames an activation keeps the variables that the tree is annotated with at the
nodes that have made them.  The evaluator knows nothing of these; they are there to say of
a variable at run time which node it comes from.
-/
import Mathlib.Logic.Relation
import Parlance.Program
import Parlance.Proofs.Syntax.Binders

namespace Parlance

/-- The activation of a method, or of what stands outside of all methods. -/
structure Activation where
  pass : Pass
  /-- The method that is running, if one is. -/
  method? : Option Method
  locals : Locals
  /-- For each frame, the annotations of the nodes that have made its variables. -/
  blocks : Blocks

/-- What one of the evaluator's functions is given to do. -/
inductive Task where
  | expr (e : Expr)
  | exprs (es : List Expr)
  | invocation (r : Routine) (arguments : List Value)
  | stmt (s : Stmt)
  | stmts (ss : List Stmt)
  | block (vars : List Variable) (frame : Frame) (body : List Stmt)
  | iterate (name : Name) (items : List Int) (body : List Stmt)
  | loop (condition : Expr) (body : List Stmt)

/-- A call of one of the evaluator's functions. -/
structure Moment where
  activation : Activation
  task : Task
  fuel : Nat
  store : Store

/-- The activation after a statement has left these frames. -/
def Activation.after (a : Activation) (s : Stmt) (locals : Locals) : Activation :=
  { a with locals, blocks := s.declared?.elim a.blocks a.blocks.add }

/-- The activation inside one more block. -/
def Activation.enter (a : Activation) (vars : List Variable) (frame : Frame) : Activation :=
  { a with locals := frame :: a.locals, blocks := vars :: a.blocks }

/-- The first call makes the second. -/
inductive Leads : Moment → Moment → Prop
  -- expressions
  | group {a n σ e t} : Leads ⟨a, .expr (.group e t), n + 1, σ⟩ ⟨a, .expr e, n, σ⟩
  | left {a n σ op l r t} : Leads ⟨a, .expr (.binary op l r t), n + 1, σ⟩ ⟨a, .expr l, n, σ⟩
  | right {a n σ op l r t v τ} (hl : eval a.pass a.locals n l σ = .ok v τ)
      (hs : binarySettled op v = .ok none) :
      Leads ⟨a, .expr (.binary op l r t), n + 1, σ⟩ ⟨a, .expr r, n, τ⟩
  | memberReceiver {a n σ r name v t} :
      Leads ⟨a, .expr (.member r name v t), n + 1, σ⟩ ⟨a, .expr r, n, σ⟩
  | callArguments {a n σ name as f t} :
      Leads ⟨a, .expr (.call name as f t), n + 1, σ⟩ ⟨a, .exprs as, n, σ⟩
  | callInvoke {a n σ name as f t vs τ r} (has : evalAll a.pass a.locals n as σ = .ok vs τ)
      (hr : τ.scopeFunction a.pass.scope name vs.length = .ok r) :
      Leads ⟨a, .expr (.call name as f t), n + 1, σ⟩ ⟨a, .invocation r vs, n, τ⟩
  | memberCallReceiver {a n σ e name as f t} :
      Leads ⟨a, .expr (.memberCall e name as f t), n + 1, σ⟩ ⟨a, .expr e, n, σ⟩
  | memberCallArguments {a n σ e name as f t v τ} (he : eval a.pass a.locals n e σ = .ok v τ) :
      Leads ⟨a, .expr (.memberCall e name as f t), n + 1, σ⟩ ⟨a, .exprs as, n, τ⟩
  | memberCallInvoke {a n σ e name as f t v τ vs υ id r}
      (he : eval a.pass a.locals n e σ = .ok v τ)
      (has : evalAll a.pass a.locals n as τ = .ok vs υ)
      (hm : υ.membersOfValue a.pass.registry v = .ok id)
      (hr : υ.memberFunction id name (vs.length + 1) = .ok r) :
      Leads ⟨a, .expr (.memberCall e name as f t), n + 1, σ⟩ ⟨a, .invocation r (v :: vs), n, υ⟩
  | head {a n σ e es} : Leads ⟨a, .exprs (e :: es), n + 1, σ⟩ ⟨a, .expr e, n, σ⟩
  | tail {a n σ e es v τ} (he : eval a.pass a.locals n e σ = .ok v τ) :
      Leads ⟨a, .exprs (e :: es), n + 1, σ⟩ ⟨a, .exprs es, n, τ⟩
  -- functions
  | body {a n σ f m pass vs frame}
      (hf : Frame.declareAll [] (m.parameters.zip vs) = .ok frame) :
      Leads ⟨a, .invocation ⟨f, some (.method m pass)⟩ vs, n + 1, σ⟩
        ⟨⟨pass, some m, [frame], [m.parameterVariables]⟩, .stmts m.body, n, σ⟩
  -- statements
  | expression {a n σ e} : Leads ⟨a, .stmt (.expression e), n + 1, σ⟩ ⟨a, .expr e, n, σ⟩
  | initial {a n σ name typeName e v} :
      Leads ⟨a, .stmt (.declaration name typeName (some e) v), n + 1, σ⟩ ⟨a, .expr e, n, σ⟩
  | assigned {a n σ name v t e}
      (hx : (∃ x, a.locals.get? name = some x) ∨ a.locals.get? name = none ∧
        ∃ s, σ.scopeVariable a.pass.scope name = .ok s) :
      Leads ⟨a, .stmt (.assignment (.access name v t) e), n + 1, σ⟩ ⟨a, .expr e, n, σ⟩
  | assignedReceiver {a n σ r name v t e} :
      Leads ⟨a, .stmt (.assignment (.member r name v t) e), n + 1, σ⟩ ⟨a, .expr r, n, σ⟩
  | assignedMember {a n σ r name v t e x τ id s} (hr : eval a.pass a.locals n r σ = .ok x τ)
      (hm : τ.membersOfValue a.pass.registry x = .ok id)
      (hs : τ.memberVariable id name = .ok s) :
      Leads ⟨a, .stmt (.assignment (.member r name v t) e), n + 1, σ⟩ ⟨a, .expr e, n, τ⟩
  | condition {a n σ e ss ss'} :
      Leads ⟨a, .stmt (.conditional e ss ss'), n + 1, σ⟩ ⟨a, .expr e, n, σ⟩
  | branch {a n σ e ss ss' b τ} (he : eval a.pass a.locals n e σ = .ok (.boolean b) τ) :
      Leads ⟨a, .stmt (.conditional e ss ss'), n + 1, σ⟩
        ⟨a, .block [] [] (if b then ss else ss'), n, τ⟩
  | iterable {a n σ name e ss} :
      Leads ⟨a, .stmt (.forEach name e ss), n + 1, σ⟩ ⟨a, .expr e, n, σ⟩
  | iterations {a n σ name e ss items τ}
      (he : eval a.pass a.locals n e σ = .ok (.iterable items) τ) :
      Leads ⟨a, .stmt (.forEach name e ss), n + 1, σ⟩ ⟨a, .iterate name items ss, n, τ⟩
  | whileLoop {a n σ e ss} :
      Leads ⟨a, .stmt (.whileLoop e ss), n + 1, σ⟩ ⟨a, .loop e ss, n, σ⟩
  | returning {a n σ e} : Leads ⟨a, .stmt (.returning e), n + 1, σ⟩ ⟨a, .expr e, n, σ⟩
  | first {a n σ s ss} : Leads ⟨a, .stmts (s :: ss), n + 1, σ⟩ ⟨a, .stmt s, n, σ⟩
  | rest {a n σ s ss locals τ}
      (hs : exec a.pass n a.locals s σ = .ok (.completed locals) τ) :
      Leads ⟨a, .stmts (s :: ss), n + 1, σ⟩ ⟨a.after s locals, .stmts ss, n, τ⟩
  | inside {a n σ vars frame ss} :
      Leads ⟨a, .block vars frame ss, n + 1, σ⟩ ⟨a.enter vars frame, .stmts ss, n, σ⟩
  | iteration {a n σ name i items ss} :
      Leads ⟨a, .iterate name (i :: items) ss, n + 1, σ⟩
        ⟨a, .block [a.blocks.item name] [(name, .integer i)] ss, n, σ⟩
  | nextIteration {a n σ name i items ss locals τ}
      (hb : block a.pass n a.locals [(name, .integer i)] ss σ = .ok (.completed locals) τ) :
      Leads ⟨a, .iterate name (i :: items) ss, n + 1, σ⟩
        ⟨{ a with locals }, .iterate name items ss, n, τ⟩
  | loopCondition {a n σ e ss} : Leads ⟨a, .loop e ss, n + 1, σ⟩ ⟨a, .expr e, n, σ⟩
  | loopBody {a n σ e ss τ} (he : eval a.pass a.locals n e σ = .ok (.boolean true) τ) :
      Leads ⟨a, .loop e ss, n + 1, σ⟩ ⟨a, .block [] [] ss, n, τ⟩
  | loopAgain {a n σ e ss τ locals υ}
      (he : eval a.pass a.locals n e σ = .ok (.boolean true) τ)
      (hb : block a.pass n a.locals [] ss τ = .ok (.completed locals) υ) :
      Leads ⟨a, .loop e ss, n + 1, σ⟩ ⟨{ a with locals }, .loop e ss, n, υ⟩

/-! ### Runs of a source -/

/-- The activation of what stands outside of all methods. -/
def Pass.outside (pass : Pass) : Activation :=
  ⟨pass, none, [], []⟩

namespace Source

/-- The calls that an evaluation of a source with a new pass begins with: that of the value of a
field, once those before it are declared, and that of the entry point, once everything is. -/
inductive Begins (s : Source) (host : Host) (fuel : Nat) (σ : Store) : Moment → Prop
  | field {before after : List FieldPlace} {p : FieldPlace} {e : Expr} {τ : Store}
      (hs : s.fields = before ++ p :: after) (he : p.initial? = some e)
      (hb : before.forM ((host.evaluator σ).1.declareFieldPlace fuel) (host.evaluator σ).2
        = .ok () τ) :
      Begins s host fuel σ ⟨(host.evaluator σ).1.outside, .expr e, fuel, τ⟩
  | main {main : Routine} {τ : Store}
      (hd : (host.evaluator σ).1.declareSource fuel s (host.evaluator σ).2 = .ok () τ)
      (hm : τ.scopeFunction (host.evaluator σ).1.scope "main" 0 = .ok main) :
      Begins s host fuel σ
        ⟨(host.evaluator σ).1.outside, .invocation main [], fuel, τ.report .entering⟩

/-- The evaluation of the source, begun in that store with so much fuel, goes through the
moment. -/
def Reaches (s : Source) (host : Host) (fuel : Nat) (σ : Store) (m : Moment) : Prop :=
  ∃ m₀, s.Begins host fuel σ m₀ ∧ Relation.ReflTransGen Leads m₀ m

/-- In the course of the evaluation the expression finishes with the value. -/
def Yields (s : Source) (host : Host) (fuel : Nat) (σ : Store) (e : Expr) (v : Value) : Prop :=
  ∃ m τ, s.Reaches host fuel σ m ∧ m.task = .expr e ∧
    eval m.activation.pass m.activation.locals m.fuel e m.store = .ok v τ

/-- What every step of a run preserves holds of all that is reached. -/
theorem Reaches.of_steps {P : Moment → Prop} {s : Source} {host : Host} {fuel : Nat} {σ : Store}
    {m : Moment} (h : s.Reaches host fuel σ m) (hbegin : ∀ m₀, s.Begins host fuel σ m₀ → P m₀)
    (hstep : ∀ {m m'}, Leads m m' → P m → P m') : P m := by
  obtain ⟨m₀, hm, hs⟩ := h
  induction hs with
  | refl => exact hbegin m₀ hm
  | tail _ hl ih => exact hstep hl ih

end Source

end Parlance
