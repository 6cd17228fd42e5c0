/-
Where in the text a run is.

A moment holds what is to be done, and a piece of text may occur several times in a method.  Its
place says which occurrence it is, and for each variable in the frames which node has made it.
Both are kept beside the run, step by step: a place moves on after a statement and into the block
that is entered, and what makes a variable is noted where the variable is made, by the parameters
of a call, a declaration that has been executed or an iteration that begins.  Nothing in them comes
from looking up names.
-/
import Parlance.Proofs.Running.Moment
import Parlance.Proofs.Syntax.Paths

namespace Parlance

/-- Where a moment is. -/
structure Place where
  path : Path
  /-- For each frame the nodes that have made its variables. -/
  makers : List (List Maker)

namespace Place

/-- The place outside of all methods. -/
def outside : Place :=
  ⟨.start, []⟩

/-- The beginning of a method that has been called. -/
def start (m : Method) : Place :=
  ⟨.start, [m.parameterMakers]⟩

/-- The place after a statement that has completed. -/
def after (q : Place) (s : Stmt) : Place :=
  ⟨.next q.path, grow (s.declares?.map fun _ => .stmt q.path) q.makers⟩

/-- The place of a branch that is about to be entered. -/
def branch (q : Place) (b : Bool) : Place :=
  { q with path := if b then .inThen q.path else .inElse q.path }

/-- The place inside a block that is entered. -/
def enter (q : Place) : Place :=
  { q with makers := q.path.opens :: q.makers }

end Place

/-- The task begins neither a block nor what comes after a statement, so it is done in the place in
which the call for it is made. -/
def Task.Stays : Task → Prop
  | .stmts _ | .block .. => False
  | _ => True

/-- The first call makes the second, and their places are these. -/
inductive Moves : Moment × Place → Moment × Place → Prop
  | stay {m m' q} (hl : Leads m m') (ht : m'.task.Stays) : Moves (m, q) (m', q)
  | body {a n σ f m pass vs frame q}
      (hf : Frame.declareAll [] (m.parameters.zip vs) = .ok frame) :
      Moves (⟨a, .invocation ⟨f, some (.method m pass)⟩ vs, n + 1, σ⟩, q)
        (⟨⟨pass, some m, [frame], [m.parameterVariables]⟩, .stmts m.body, n, σ⟩, .start m)
  | rest {a n σ s ss locals τ q}
      (hs : exec a.pass n a.locals s σ = .ok (.completed locals) τ) :
      Moves (⟨a, .stmts (s :: ss), n + 1, σ⟩, q) (⟨a.after s locals, .stmts ss, n, τ⟩, q.after s)
  | branch {a n σ e ss ss' b τ q}
      (he : eval a.pass a.locals n e σ = .ok (.boolean b) τ) :
      Moves (⟨a, .stmt (.conditional e ss ss'), n + 1, σ⟩, q)
        (⟨a, .block [] [] (if b then ss else ss'), n, τ⟩, q.branch b)
  | iteration {a n σ name i items ss q} :
      Moves (⟨a, .iterate name (i :: items) ss, n + 1, σ⟩, q)
        (⟨a, .block [a.blocks.item name] [(name, .integer i)] ss, n, σ⟩,
          { q with path := .inFor q.path })
  | loopBody {a n σ e ss τ q} (he : eval a.pass a.locals n e σ = .ok (.boolean true) τ) :
      Moves (⟨a, .loop e ss, n + 1, σ⟩, q)
        (⟨a, .block [] [] ss, n, τ⟩, { q with path := .inWhile q.path })
  | inside {a n σ vars frame ss q} :
      Moves (⟨a, .block vars frame ss, n + 1, σ⟩, q)
        (⟨a.enter vars frame, .stmts ss, n, σ⟩, q.enter)

theorem Moves.leads {x y : Moment × Place} (h : Moves x y) : Leads x.1 y.1 := by
  cases h with
  | stay hl _ => exact hl
  | body hf => exact .body hf
  | rest hs => exact .rest hs
  | branch he => exact .branch he
  | iteration => exact .iteration
  | loopBody he => exact .loopBody he
  | inside => exact .inside

/-- Every step of a run has a place to go to. -/
theorem Leads.moves {m m' : Moment} (h : Leads m m') (q : Place) :
    ∃ q', Moves (m, q) (m', q') := by
  cases h with
  | body hf => exact ⟨_, .body hf⟩
  | first => exact ⟨q, .stay .first trivial⟩
  | rest hs => exact ⟨_, .rest hs⟩
  | branch he => exact ⟨_, .branch he⟩
  | iteration => exact ⟨_, .iteration⟩
  | loopBody he => exact ⟨_, .loopBody he⟩
  | inside => exact ⟨_, .inside⟩
  | _ => exact ⟨q, .stay (by constructor <;> assumption) trivial⟩

/-! ### Runs of a source -/

namespace Source

variable {s : Source} {host : Host} {fuel : Nat} {σ : Store} {m : Moment} {q : Place}

/-- The evaluation of the source, begun in that store with so much fuel, goes through the moment,
and is in that place then. -/
def Visits (s : Source) (host : Host) (fuel : Nat) (σ : Store) (m : Moment) (q : Place) : Prop :=
  ∃ m₀, s.Begins host fuel σ m₀ ∧ Relation.ReflTransGen Moves (m₀, .outside) (m, q)

theorem Visits.reaches (h : s.Visits host fuel σ m q) : s.Reaches host fuel σ m := by
  obtain ⟨m₀, hm, hs⟩ := h
  exact ⟨m₀, hm, hs.lift Prod.fst fun _ _ => Moves.leads⟩

/-- Whatever an evaluation goes through, it is somewhere then. -/
theorem Reaches.visits (h : s.Reaches host fuel σ m) : ∃ q, s.Visits host fuel σ m q := by
  obtain ⟨m₀, hm, hs⟩ := h
  induction hs with
  | refl => exact ⟨.outside, m₀, hm, .refl⟩
  | tail _ hl ih =>
    obtain ⟨q, m₀', hm', hs'⟩ := ih
    obtain ⟨q', hq⟩ := hl.moves q
    exact ⟨q', m₀', hm', hs'.tail hq⟩

/-- What every step of a run preserves holds wherever it comes to. -/
theorem Visits.of_steps {P : Moment → Place → Prop} (h : s.Visits host fuel σ m q)
    (hbegin : ∀ m₀, s.Begins host fuel σ m₀ → P m₀ .outside)
    (hstep : ∀ {m q m' q'}, Moves (m, q) (m', q') → P m q → P m' q') : P m q := by
  obtain ⟨m₀, hm, hs⟩ := h
  have hall : ∀ x, Relation.ReflTransGen Moves (m₀, .outside) x → P x.1 x.2 := by
    intro x hx
    induction hx with
    | refl => exact hbegin m₀ hm
    | tail _ hl ih => exact hstep hl ih
  exact hall (m, q) hs

end Source

end Parlance
