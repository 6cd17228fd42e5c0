/-
What an accepted program can stop for.

An accepted program runs in the scopes that it was checked in, so whatever it looks up is
there and whatever it declares is free: of the faults of the language it can only stop for a
value of the wrong kind and for a zero divisor.  The limits on numbers are beside the point,
since no check can exclude them, and so is a text that the stream refuses.

A value of the wrong kind is in the end a `Nil` in place of another value, or two values of
different kinds that were only known to be `Comparable`.  A careful source excludes both, and
what is left is the strict reading of `Holds`: an expression has a value of its very type, and
a zero divisor is all that the language can stop for.
-/
import Parlance.Proofs.Kinds.Program

namespace Parlance

/-- The limits on the numbers themselves. -/
def Limit.ofNumbers : List Limit :=
  [.integerText, .decimalOverflow, .quotientOverflow]

/-- The fault breaks a run off without a message: it is a limit on numbers, or a text that the
stream refuses, which it can only be if the stream refuses some. -/
def Fault.Breaks (stream : Encoding) (f : Fault) : Prop :=
  (∃ l ∈ Limit.ofNumbers, f = .limit l) ∨ f = .encoding ∧ ∃ t, ¬stream.takes t = true

/-- What breaks a run off has no message. -/
theorem Fault.Breaks.message?_eq_none {stream : Encoding} {f : Fault} (h : f.Breaks stream) :
    f.message? = none := by
  rcases h with ⟨l, -, rfl⟩ | ⟨rfl, -⟩ <;> rfl

/-- What is to be expected is reported as an error of evaluation, unless it breaks the run off. -/
theorem Expected.report {stream : Encoding} {lax : Bool} {f : Fault} (h : Expected stream lax f) :
    f.Breaks stream ∨
      ∃ r, f.report = .ok r ∧ r.stage = .evaluation ∧
        (r.kind = "RuntimeTypeError" ∨ r.kind = "DivideByZero") := by
  cases h with
  | integerText => exact .inl (.inl ⟨_, by decide, rfl⟩)
  | decimalOverflow => exact .inl (.inl ⟨_, by decide, rfl⟩)
  | quotientOverflow => exact .inl (.inl ⟨_, by decide, rfl⟩)
  | encoding ht => exact .inl (.inr ⟨rfl, _, ht⟩)
  | divisionByZero => exact .inr ⟨_, rfl, rfl, .inr rfl⟩
  | @wrongKind cause _ hk =>
    -- a fault of this kind names kinds of values, so it always has a message
    cases cause <;>
      first | exact .inr ⟨_, rfl, rfl, .inl rfl⟩ | exact absurd hk (by simp [RunFault.kind])

theorem Expected.strict {stream : Encoding} {f : Fault} (h : Expected stream false f) :
    f = .run .divisionByZero ∨ f.Breaks stream := by
  cases h with
  | integerText => exact .inr (.inl ⟨_, by decide, rfl⟩)
  | decimalOverflow => exact .inr (.inl ⟨_, by decide, rfl⟩)
  | quotientOverflow => exact .inr (.inl ⟨_, by decide, rfl⟩)
  | encoding ht => exact .inr (.inr ⟨rfl, _, ht⟩)
  | divisionByZero => exact .inl rfl
  | wrongKind hl _ => cases hl

theorem Holds.admits {t : Option Ty} {v : Value} (h : Holds false t v) :
    ∃ s, t = some s ∧ s.admits v = true := by
  obtain ⟨s, _, hs, _, hv⟩ := h
  exact ⟨s, hs, hv.resolve_right (by simp)⟩

namespace Source

/-! ### Any accepted source -/

/-- **An accepted source is well-scoped when it runs.** No evaluation of it, of any length and
begun in any store, stops for an unbound or a doubly bound name, a wrong number of arguments, an
unknown operator, or a node that is out of place: apart from the limits on numbers, and from a text
that the stream refuses, it only stops for a value of the wrong kind and for a zero divisor. -/
theorem Accepted.well_scoped {s : Source} {σ : Store} (h : s.Accepted σ) (τ : Store) (fuel : Nat)
    {f : Fault} {τ' : Store}
    (hf : (s.checked σ).evaluate Host.none fuel τ = .error (.fault f) τ') :
    f.Breaks τ.encoding ∨
      ∃ r, f.report = .ok r ∧ r.stage = .evaluation ∧
        (r.kind = "RuntimeTypeError" ∨ r.kind = "DivideByZero") :=
  have lax : Careful true (s.checked σ).walk := .inl rfl
  ((h.evaluate_ends τ fuel lax).fault hf).2.report

/-- A source that divides by a field without a value, after it has shown a parameter which has the
name of that field. -/
def shadowed : Source where
  fields := [.field ⟨"n", some "Integer", none, none⟩]
  methods :=
    [.method ⟨"show", ["n"], [some "Integer"], none,
      [.expression (.call "print" [.access "n" none none] none none)], none⟩,
     .method ⟨"main", [], [], some "Integer",
      [.expression (.call "show" [.literal (.integer 2)  none] none none),
       .returning (.binary "/" (.literal (.integer 1) none) (.access "n" none none) none)],
      none⟩]

theorem well_scoped_shadowed :
    shadowed.Accepted .initial ∧ ∃ f τ,
      (shadowed.checked .initial).evaluate Host.none 20 .initial = .error (.fault f) τ ∧
      (f.Breaks .memory ∨
        ∃ r, f.report = .ok r ∧ r.stage = .evaluation ∧
          (r.kind = "RuntimeTypeError" ∨ r.kind = "DivideByZero")) := by
  have h : shadowed.Accepted .initial := by decide +kernel
  obtain ⟨τ, hτ⟩ := Eval.exists_of_stop? (σ := .initial)
    (x := (shadowed.checked .initial).evaluate Host.none 20)
    (s := .fault (.run (.operandKinds "/" "Integer" "Nil"))) (by decide +kernel)
  exact ⟨h, _, τ, hτ, Accepted.well_scoped h .initial 20 hτ⟩

/-! ### Careful sources -/

/-- **Progress.** Let an accepted source give each variable a value, have methods that definitely
return wherever they promise something, and order no operands that are only known to be
`Comparable`.  Then no evaluation of it stops for a value of the wrong kind: if it ends, then with
an Integer, for a zero divisor, at a limit on numbers, or with a text that the stream refuses.  And
an expression that finishes does so with a value of the type it is annotated with, without
exception. -/
theorem Accepted.progress {s : Source} {σ : Store} (h : s.Accepted σ)
    (hc : ∀ n ∈ (s.checked σ).walk, n.careful = true) (τ : Store) (fuel : Nat) :
    (∀ v τ', (s.checked σ).evaluate Host.none fuel τ = .ok v τ' → ∃ n, v = .integer n) ∧
    (∀ f τ', (s.checked σ).evaluate Host.none fuel τ = .error (.fault f) τ' →
      f = .run .divisionByZero ∨ f.Breaks τ.encoding) ∧
    (∀ e v, (s.checked σ).Yields Host.none fuel τ e v →
      ∃ t, e.type? = some t ∧ t.admits v = true) := by
  have careful : Careful false (s.checked σ).walk := .inr hc
  have hends := h.evaluate_ends τ fuel careful
  refine ⟨?_, fun f τ' hf => (hends.fault hf).2.strict, ?_⟩
  · intro v τ' hv
    obtain ⟨-, t, ht, hh⟩ := hends.ok hv
    rcases hh.builtin ht (by decide) (by decide) with hb | ⟨hl, -⟩
    · exact Value.eq_integer hb
    · cases hl
  · intro e v hy
    obtain ⟨m, τ', hm, ht, he⟩ := hy
    obtain ⟨w, hw, hp⟩ := h.reaches_proper τ fuel careful hm
    exact (hw.strictness ▸ hp.yields ht he).admits

/-- A source that computes a power of ten by squaring, with so large an exponent that the quotient
of the power by `0.1` is beyond the limit of what a decimal can hold. -/
def power : Source where
  fields := []
  methods :=
    [.method ⟨"power", ["n"], [some "Integer"], some "Decimal",
      [.conditional (.binary "==" n (.literal (.integer 0) none) none)
        [.returning (.literal (.decimal ⟨false, 1, 0⟩) none)] [],
       .declaration "half" (some "Integer") (some (.binary "/" n two none)) none,
       .declaration "root" (some "Decimal") (some (.call "power" [half] none none)) none,
       .conditional (.binary "==" n (.binary "*" half two none) none)
        [.returning (.binary "*" root root none)]
        [.returning (.binary "*" (.binary "*" root root none)
          (.literal (.decimal ⟨false, 1, 1⟩) none) none)]], none⟩,
     .method ⟨"main", [], [], some "Integer",
      [.declaration "quotient" (some "Decimal")
        (some (.binary "/"
          (.call "power" [.binary "*" (.literal (.integer 999999999) none)
            (.literal (.integer 1000000001) none) none] none none)
          (.literal (.decimal ⟨false, 1, -1⟩) none) none)) none,
       .returning (.literal (.integer 0) none)], none⟩]
where
  n : Expr := .access "n" none none
  half : Expr := .access "half" none none
  root : Expr := .access "root" none none
  two : Expr := .literal (.integer 2) none

/-- A source that prints a surrogate on its own. -/
def lonely : Source where
  fields := []
  methods :=
    [.method ⟨"main", [], [], some "Integer",
      [.expression (.call "print" [.literal (.string (.singleton (.surrogate 0))) none] none none),
       .returning (.literal (.integer 0) none)], none⟩]

/-- Careful sources come to more ends than a zero divisor and the limits on texts and on exact
decimals: a quotient may be too large, and a stream may refuse what is printed. -/
theorem careful_ends_otherwise :
    (power.Accepted .initial ∧ (∀ n ∈ (power.checked .initial).walk, n.careful = true) ∧
      ∃ f τ, (power.checked .initial).evaluate Host.none 600 .initial = .error (.fault f) τ ∧
        ¬ (f = .run .divisionByZero ∨ f = .limit .integerText ∨ f = .limit .decimalOverflow)) ∧
    lonely.Accepted .initial ∧ (∀ n ∈ (lonely.checked .initial).walk, n.careful = true) ∧
      ∃ f τ, (lonely.checked .initial).evaluate Host.none 20 (.opened .utf8) = .error (.fault f) τ ∧
        ¬ (f = .run .divisionByZero ∨ f = .limit .integerText ∨ f = .limit .decimalOverflow) := by
  refine ⟨?_, ?_⟩
  · obtain ⟨τ, hτ⟩ := Eval.exists_of_stop? (σ := .initial)
      (x := (power.checked .initial).evaluate Host.none 600)
      (s := .fault (.limit .quotientOverflow)) (by decide +kernel)
    exact ⟨by decide +kernel, by decide +kernel, _, τ, hτ, by decide⟩
  · obtain ⟨τ, hτ⟩ := Eval.exists_of_stop? (σ := .opened .utf8)
      (x := (lonely.checked .initial).evaluate Host.none 20)
      (s := .fault .encoding) (by decide +kernel)
    exact ⟨by decide +kernel, by decide +kernel, _, τ, hτ, by decide⟩

/-- A careful source, in which a loop counts down. -/
def countdown : Source where
  fields := [.field ⟨"n", none, some (.literal (.integer 3) none), none⟩]
  methods :=
    [.method ⟨"main", [], [], some "Integer",
      [.whileLoop (.binary ">" (.access "n" none none) (.literal (.integer 0) none) none)
        [.assignment (.access "n" none none)
          (.binary "-" (.access "n" none none) (.literal (.integer 1) none) none)],
       .returning (.access "n" none none)], none⟩]

theorem progress_countdown :
    countdown.Accepted .initial ∧
    (∀ n ∈ (countdown.checked .initial).walk, n.careful = true) ∧
    ∃ v τ, (countdown.checked .initial).evaluate Host.none 20 .initial = .ok v τ ∧
      ∃ n, v = .integer n := by
  have h : countdown.Accepted .initial := by decide +kernel
  have hc : ∀ n ∈ (countdown.checked .initial).walk, n.careful = true := by decide +kernel
  obtain ⟨τ, hτ⟩ := Eval.exists_of_answer? (a := Value.integer 0) (σ := .initial)
    (x := (countdown.checked .initial).evaluate Host.none 20) (by decide +kernel)
  exact ⟨h, hc, _, τ, hτ, (Accepted.progress h hc .initial 20).1 _ _ hτ⟩

end Source

end Parlance
