/-
Loops, unrolled.

A loop over integers does what a list of branches does, one for each of the integers, which declares
the loop's variable and then runs the body.  A loop with a condition does what a branch does that
runs the body and then the loop.  Neither asks anything of the body: it may set what the integers
were read from, leave by a `RETURN` or never come to an end.

With other statements there are other steps, so fuel is spent differently.  What is compared are
therefore runs with all amounts of fuel: they come to the same ends, and if they come to none, each
writes what the other writes.
-/
import Parlance.Proofs.Running.Fuel
import Parlance.Proofs.Unrolled.Padding

namespace Parlance

open EStateM (Result)

/-! ### Runs with all amounts of fuel -/

/-- Given any amount of fuel, two evaluations come to the same ends, and whatever one of them has
written at some time, the other has at some time. -/
structure RunsAlike {α : Type} (x y : Nat → Result Stop Store α) : Prop where
  ends : ∀ r, Eval.Ended r → ((∃ n, x n = r) ↔ ∃ n, y n = r)
  writes : ∀ n, ∃ m, (Eval.stored (x n)).output.toList <+: (Eval.stored (y m)).output.toList
  written : ∀ n, ∃ m, (Eval.stored (y n)).output.toList <+: (Eval.stored (x m)).output.toList

theorem RunsAlike.of_approximates {α : Type} {x y : Nat → Result Stop Store α}
    (hxy : ∀ n, ∃ m, Eval.Approximates (x n) (y m))
    (hyx : ∀ n, ∃ m, Eval.Approximates (y n) (x m)) : RunsAlike x y where
  ends r hr := by
    constructor
    · rintro ⟨n, rfl⟩
      obtain ⟨m, h⟩ := hxy n
      exact ⟨m, h.eq_of_ended hr⟩
    · rintro ⟨n, rfl⟩
      obtain ⟨m, h⟩ := hyx n
      exact ⟨m, h.eq_of_ended hr⟩
  writes n := by
    obtain ⟨m, h⟩ := hxy n
    exact ⟨m, h.writes⟩
  written n := by
    obtain ⟨m, h⟩ := hyx n
    exact ⟨m, h.writes⟩

/-! ### The statements -/

/-- A branch that is always taken. -/
def Stmt.always (body : List Stmt) : Stmt :=
  .conditional (.literal (.boolean true) none) body []

/-- What a loop does for one integer. -/
def Stmt.iteration (name : Name) (body : List Stmt) (i : Int) : Stmt :=
  .always (.declaration name none (some (.literal (.integer i) none)) none :: body)

/-- What a loop with a condition does: its body, if the condition holds, and then the loop. -/
def Stmt.unrolled (condition : Expr) (body : List Stmt) : Stmt :=
  .conditional condition [.always body, .whileLoop condition body] []

namespace Unrolled

open Eval Pairing

variable {pass : Pass} {locals : Locals} {n : Nat}

theorem exec_always (body : List Stmt) :
    exec pass (n + 2) locals (.always body) = block pass (n + 1) locals [] body :=
  rfl

/-- The branch for an integer is the iteration for it. -/
theorem exec_iteration (name : Name) (body : List Stmt) (i : Int) :
    exec pass (n + 5) locals (.iteration name body i)
      = block pass (n + 3) locals [(name, .integer i)] body := by
  rw [Stmt.iteration, exec_always]
  rfl

/-! ### Loops over integers -/

theorem iterate_below (name : Name) (items : List Int) (body : List Stmt) :
    Below (iterate pass n locals name items body)
      (execAll pass (n + 5) locals (items.map (.iteration name body))) := by
  induction items generalizing n locals with
  | nil =>
    cases n with
    | zero => exact ((belowAt_zero 5).execAll pass locals []).proceeds.outOfFuel
    | succ n => exact below_pure _
  | cons i is ih =>
    cases n with
    | zero => exact ((belowAt_zero 5).execAll pass locals _).proceeds.outOfFuel
    | succ n =>
      have once : Below (block pass n locals [(name, .integer i)] body)
          (exec pass (n + 5) locals (.iteration name body i)) := by
        rw [exec_iteration]
        exact (belowAt (Nat.le_add_right n 3)).block pass locals _ body
      refine once.bind fun o => ?_
      cases o with
      | returned v => exact below_pure _
      | completed ls => exact ih

theorem below_iterate (name : Name) (items : List Int) (body : List Stmt) :
    Below (execAll pass n locals (items.map (.iteration name body)))
      (iterate pass (n + 3) locals name items body) := by
  induction items generalizing n locals with
  | nil =>
    cases n with
    | zero => exact ((belowAt_zero 3).iterate pass locals name [] body).proceeds.outOfFuel
    | succ n => exact below_pure _
  | cons i is ih =>
    cases n with
    | zero => exact ((belowAt_zero 3).iterate pass locals name (i :: is) body).proceeds.outOfFuel
    | succ n =>
      have once : Below (exec pass n locals (.iteration name body i))
          (block pass (n + 3) locals [(name, .integer i)] body) := by
        rw [← exec_iteration]
        exact (belowAt (Nat.le_add_right n 5)).exec pass locals _
      refine once.bind fun o => ?_
      cases o with
      | returned v => exact below_pure _
      | completed ls => exact ih

/-! ### Loops with a condition -/

/-- A loop that runs its body once and then goes on, the condition, the body and the rest being
given so much fuel each. -/
def oneRound (pass : Pass) (locals : Locals) (condition : Expr) (body : List Stmt) (n m k : Nat) :
    Eval Outcome := do
  if ← lift (← eval pass locals n condition).truth then
    match ← block pass m locals [] body with
    | .returned v => return .returned v
    | .completed locals => loop pass k locals condition body
  else return .completed locals

theorem oneRound_below {n n' m m' k k' : Nat} (hn : n ≤ n') (hm : m ≤ m') (hk : k ≤ k')
    (condition : Expr) (body : List Stmt) : Below (oneRound pass locals condition body n m k)
      (oneRound pass locals condition body n' m' k') := by
  refine ((belowAt hn).eval pass locals condition).bind fun v => (below_lift _).bind fun b => ?_
  cases b with
  | false => exact below_pure _
  | true =>
    refine ((belowAt hm).block pass locals [] body).bind fun o => ?_
    cases o with
    | returned v => exact below_pure _
    | completed ls => exact (belowAt hk).loop pass ls condition body

theorem exec_whileLoop (condition : Expr) (body : List Stmt) :
    exec pass (n + 2) locals (.whileLoop condition body)
      = oneRound pass locals condition body n n n :=
  rfl

/-- The branch runs the body once and then goes on. Both are inside of a frame that the branch has
opened, and nothing is declared in it. -/
theorem exec_unrolled (condition : Expr) (body : List Stmt) :
    exec pass (n + 5) locals (.unrolled condition body)
      = oneRound pass locals condition body (n + 4) (n + 1) n := by
  -- the loop, which is the last of the two statements, inside of the frame and without it
  have last {ls ls' : Locals} (h : Padded 0 ls ls') :
      (along id).Together (fun o o' => o = leave o') (loop pass n ls condition body)
        (execAll pass (n + 2) ls' [.whileLoop condition body]) := by
    rw [← bind_pure (loop pass n ls condition body)]
    refine ((paddedAt n).loop condition body h).bind fun o o' ho => ?_
    cases ho with
    | returned => exact together_pure rfl
    | completed h =>
      cases h
      exact together_pure rfl
  have both : (along id).Together (fun o o' => o = leave o')
      (do match ← block pass (n + 1) locals [] body with
        | .returned v => return .returned v
        | .completed locals => loop pass n locals condition body)
      (execAll pass (n + 3) ([] :: locals) [.always body, .whileLoop condition body]) := by
    refine ((paddedAt (n + 1)).block [] body .here).bind fun o o' ho => ?_
    cases ho with
    | returned => exact together_pure rfl
    | completed h => exact last h
  refine bind_congr fun v => bind_congr fun b => ?_
  cases b with
  | false => rfl
  | true => exact (eq_of_together both).symm

theorem whileLoop_below (condition : Expr) (body : List Stmt) :
    Below (exec pass n locals (.whileLoop condition body))
      (exec pass (n + 5) locals (.unrolled condition body)) := by
  have more := (belowAt (Nat.le_add_right n 2)).exec pass locals (.whileLoop condition body)
  rw [exec_whileLoop] at more
  rw [exec_unrolled]
  exact more.trans
    (oneRound_below (Nat.le_add_right n 4) (Nat.le_add_right n 1) (Nat.le_refl n) condition body)

theorem below_whileLoop (condition : Expr) (body : List Stmt) :
    Below (exec pass n locals (.unrolled condition body))
      (exec pass (n + 6) locals (.whileLoop condition body)) := by
  have more := (belowAt (Nat.le_add_right n 5)).exec pass locals (.unrolled condition body)
  rw [exec_unrolled] at more
  rw [exec_whileLoop]
  exact more.trans
    (oneRound_below (Nat.le_refl _) (by omega) (Nat.le_add_right n 4) condition body)

/-- **Loops can be unrolled.** A loop over integers, in any frames and any store, does what the
branches for the integers do one after the other, from where the integers have been evaluated once;
and a loop with a condition does what the branch does that holds its body and the loop again. -/
theorem loops_unrolled (pass : Pass) (locals : Locals) (σ : Store) :
    (∀ name value body items fuel τ, eval pass locals fuel value σ = .ok (.iterable items) τ →
      RunsAlike (fun n => exec pass n locals (.forEach name value body) σ)
        (fun n => execAll pass n locals (items.map (.iteration name body)) τ)) ∧
    ∀ condition body,
      RunsAlike (fun n => exec pass n locals (.whileLoop condition body) σ)
        (fun n => exec pass n locals (.unrolled condition body) σ) := by
  refine ⟨fun name value body items fuel τ h => ?_, fun condition body => ?_⟩
  · have evaluated (n : Nat) : exec pass (fuel + n + 1) locals (.forEach name value body) σ
        = iterate pass (fuel + n) locals name items body τ := by
      have hvalue : eval pass locals (fuel + n) value σ = .ok (.iterable items) τ :=
        (((belowAt (Nat.le_add_right fuel n)).eval pass locals value).near σ
          |>.eq_of_ended (by rw [h]; nofun)).trans h
      rw [exec, bind_apply hvalue]
    refine .of_approximates (fun n => ?_) fun n => ?_
    · refine ⟨fuel + n + 5, .trans ?_ ((iterate_below name items body).near τ)⟩
      rw [← evaluated]
      exact ((belowAt (by omega)).exec pass locals _).near σ
    · refine ⟨fuel + (n + 3) + 1, .trans ((below_iterate name items body).near τ) ?_⟩
      rw [evaluated]
      exact ((belowAt (Nat.le_add_left _ _)).iterate pass locals name items body).near τ
  · exact .of_approximates (fun n => ⟨n + 5, (whileLoop_below condition body).near σ⟩)
      fun n => ⟨n + 6, (below_whileLoop condition body).near σ⟩

/-- Some integers, and their sum so far. -/
def summing : Locals :=
  [[("xs", .iterable [3, 1, 2]), ("sum", .integer 0)]]

/-- Takes the integers away, adds the one at hand, and returns at the second one. -/
def adding : List Stmt :=
  [.assignment (.access "xs" none none) (.literal .nil none),
    .assignment (.access "sum" none none)
      (.binary "+" (.access "sum" none none) (.access "x" none none) none),
    .conditional (.binary "==" (.access "x" none none) (.literal (.integer 1) none) none)
      [.returning (.access "sum" none none)] []]

/-- The branches return what the loop returns, though the integers are gone after the first one. -/
theorem loops_unrolled_summing :
    eval default summing 1 (.access "xs" none none) .initial
      = .ok (.iterable [3, 1, 2]) .initial ∧
    ∃ n τ, execAll default n summing ([3, 1, 2].map (.iteration "x" adding)) .initial
      = .ok (.returned (.integer 4)) τ := by
  have items : eval default summing 1 (.access "xs" none none) .initial
      = .ok (.iterable [3, 1, 2]) .initial := rfl
  obtain ⟨τ, hτ⟩ := exists_of_answer? (σ := .initial) (a := .returned (.integer 4))
    (x := exec default 20 summing (.forEach "x" (.access "xs" none none) adding)) rfl
  have alike := (loops_unrolled default summing .initial).1 "x" _ adding _ _ _ items
  obtain ⟨n, hn⟩ := (alike.ends (.ok (.returned (.integer 4)) τ) nofun).mp ⟨20, hτ⟩
  exact ⟨items, n, τ, hn⟩

end Unrolled

end Parlance
