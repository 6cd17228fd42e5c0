/-
Division of integers rounds toward zero.

The quotient of two integers is computed from their magnitudes, and its sign is put on afterwards.
What it should be is said by what it leaves: a remainder smaller than the divisor that is zero or
has the sign of the dividend.  No two quotients leave such a remainder.  So the laws of signs, and
that a division undoes a product, need not look at the computation: it is enough to say what the
other side leaves.

A divisor that is zero leaves nothing to divide, and the operator refuses it, whatever expressions
the two numbers came from.
-/
import Mathlib.Algebra.Order.Group.Unbundled.Int
import Mathlib.Algebra.Order.Ring.Int
import Mathlib.Tactic.Linarith
import Parlance.Proofs.Decimal.Quotient
import Parlance.Proofs.Operators.Result

namespace Parlance

namespace Number

/-! ### What the quotient should be -/

/-- That an integer is the quotient of two others, cut off toward zero. -/
structure TruncatedQuotient (a b q : ℤ) : Prop where
  small : |a - q * b| < |b|
  sign : a - q * b = 0 ∨ (a - q * b).sign = a.sign

namespace TruncatedQuotient

variable {a b q p : ℤ}

/-- Two remainders of one dividend do not lie on different sides of zero. -/
theorem abs_sub_lt (hq : TruncatedQuotient a b q) (hp : TruncatedQuotient a b p) :
    |(a - q * b) - (a - p * b)| < |b| := by
  obtain ⟨hqs, hq0⟩ := hq
  obtain ⟨hps, hp0⟩ := hp
  generalize a - q * b = r at hqs hq0 ⊢
  generalize a - p * b = s at hps hp0 ⊢
  rw [abs_lt] at hqs hps ⊢
  rcases lt_trichotomy a 0 with ha | ha | ha
  · rw [Int.sign_eq_neg_one_of_neg ha, Int.sign_eq_neg_one_iff_neg] at hq0 hp0
    omega
  · rw [ha, Int.sign_zero, Int.sign_eq_zero_iff_zero] at hq0 hp0
    omega
  · rw [Int.sign_eq_one_of_pos ha, Int.sign_eq_one_iff_pos] at hq0 hp0
    omega

theorem unique (hq : TruncatedQuotient a b q) (hp : TruncatedQuotient a b p) : q = p := by
  have hb : b ≠ 0 := by
    intro hb
    have hsmall := hq.small
    rw [hb, abs_zero] at hsmall
    exact absurd hsmall (not_lt.mpr (abs_nonneg _))
  have hdvd : b ∣ (a - q * b) - (a - p * b) := ⟨p - q, by ring⟩
  have hzero := Int.eq_zero_of_abs_lt_dvd ((abs_dvd _ _).mpr hdvd) (hq.abs_sub_lt hp)
  have hmul : (p - q) * b = 0 := by linarith
  rcases mul_eq_zero.mp hmul with h | h
  · omega
  · exact absurd h hb

theorem neg_left (h : TruncatedQuotient a b q) : TruncatedQuotient (-a) b (-q) := by
  have hrest : -a - -q * b = -(a - q * b) := by ring
  constructor
  · rw [hrest, abs_neg]
    exact h.small
  · rw [hrest, neg_eq_zero, Int.sign_neg, Int.sign_neg, neg_inj]
    exact h.sign

theorem neg_right (h : TruncatedQuotient a b q) : TruncatedQuotient a (-b) (-q) := by
  have hrest : a - -q * -b = a - q * b := by ring
  constructor
  · rw [hrest, abs_neg]
    exact h.small
  · rw [hrest]
    exact h.sign

theorem of_mul (a : ℤ) (hb : b ≠ 0) : TruncatedQuotient (a * b) b a := by
  constructor
  · rw [sub_self, abs_zero]
    exact abs_pos.mpr hb
  · exact .inl (sub_self _)

end TruncatedQuotient

/-! ### What the division computes -/

/-- The remainder is that of the magnitudes, with the sign of the dividend. -/
theorem sub_truncatedQuotient_mul (a b : ℤ) :
    a - truncatedQuotient a b * b =
      if a < 0 then -((a.natAbs % b.natAbs : ℕ) : ℤ) else ((a.natAbs % b.natAbs : ℕ) : ℤ) := by
  have hdivision :
      |b| * ((a.natAbs / b.natAbs : ℕ) : ℤ) + ((a.natAbs % b.natAbs : ℕ) : ℤ) = |a| := by
    rw [← Int.natCast_natAbs a, ← Int.natCast_natAbs b]
    exact_mod_cast Nat.div_add_mod a.natAbs b.natAbs
  rw [truncatedQuotient]
  generalize ((a.natAbs / b.natAbs : ℕ) : ℤ) = q at hdivision ⊢
  generalize ((a.natAbs % b.natAbs : ℕ) : ℤ) = r at hdivision ⊢
  by_cases ha : a < 0
  · rw [abs_of_neg ha] at hdivision
    by_cases hb : b < 0
    · rw [abs_of_neg hb] at hdivision
      simp only [ha, hb, if_true]
      linarith
    · rw [abs_of_nonneg (not_lt.mp hb)] at hdivision
      simp only [ha, hb, if_true, eq_iff_iff, iff_false, not_true, if_false]
      linarith
  · rw [abs_of_nonneg (not_lt.mp ha)] at hdivision
    by_cases hb : b < 0
    · rw [abs_of_neg hb] at hdivision
      simp only [ha, hb, eq_iff_iff, iff_true, if_false]
      linarith
    · rw [abs_of_nonneg (not_lt.mp hb)] at hdivision
      simp only [ha, hb, if_true, if_false]
      linarith

theorem truncatedQuotient_truncates (a : ℤ) {b : ℤ} (hb : b ≠ 0) :
    TruncatedQuotient a b (truncatedQuotient a b) := by
  have hrest := sub_truncatedQuotient_mul a b
  have hsmall : a.natAbs % b.natAbs < b.natAbs := Nat.mod_lt _ (Int.natAbs_pos.mpr hb)
  have hle : a.natAbs % b.natAbs ≤ a.natAbs := Nat.mod_le _ _
  generalize a.natAbs % b.natAbs = r at hrest hsmall hle
  constructor
  · rw [hrest, ← Int.natCast_natAbs b]
    split
    · rw [abs_neg, Nat.abs_cast]
      exact_mod_cast hsmall
    · rw [Nat.abs_cast]
      exact_mod_cast hsmall
  · rw [hrest]
    by_cases hr : r = 0
    · left
      simp [hr]
    right
    by_cases ha : a < 0
    · rw [if_pos ha, Int.sign_eq_neg_one_of_neg ha, Int.sign_eq_neg_one_iff_neg]
      omega
    · have hpos : 0 < a := by omega
      rw [if_neg ha, Int.sign_eq_one_of_pos hpos, Int.sign_eq_one_iff_pos]
      omega

/-- An integer is the quotient that the division computes if it is one at all. -/
theorem truncatedQuotient_iff_eq (a : ℤ) {b q : ℤ} (hb : b ≠ 0) :
    TruncatedQuotient a b q ↔ q = truncatedQuotient a b := by
  constructor
  · intro h
    exact h.unique (truncatedQuotient_truncates a hb)
  · rintro rfl
    exact truncatedQuotient_truncates a hb

end Number

/-! ### The operator -/

open Number (TruncatedQuotient truncatedQuotient truncatedQuotient_truncates
  truncatedQuotient_iff_eq)

theorem binaryApply_quotient_integers (a b : ℤ) :
    binaryApply "/" (.integer a) (.integer b) =
      if b = 0 then .error (.run .divisionByZero) else .ok (.integer (truncatedQuotient a b)) := by
  have happly : binaryApply "/" (.integer a) (.integer b) =
      (Arithmetic.quotient.onIntegers a b).map Value.integer := rfl
  rw [happly, Arithmetic.onIntegers]
  split <;> rfl

theorem binaryApply_quotient_zero (x : Decimal) {y : Decimal} (hy : y.isZero = true) :
    binaryApply "/" (.decimal x) (.decimal y) = .error (.run .divisionByZero) := by
  rw [Decimal.binaryApply_quotient, Decimal.div_of_isZero x hy]
  rfl

/-- Two expressions with a quotient between them are evaluated from left to right, and then their
values are divided. -/
theorem eval_binary_quotient {pass : Pass} {locals : Locals} {fuel : Nat} {l r : Expr}
    {left right : Value} {σ τ υ : Store} (hl : eval pass locals fuel l σ = .ok left τ)
    (hr : eval pass locals fuel r τ = .ok right υ) (t : Option Ty) :
    eval pass locals (fuel + 1) (.binary "/" l r t) σ =
      Eval.lift (binaryApply "/" left right) υ := by
  have hsettled : Eval.lift (binarySettled "/" left) τ = .ok none τ := rfl
  rw [eval, Eval.bind_apply hl, Eval.bind_apply hsettled]
  exact Eval.bind_apply hr

/-- **Division of integers truncates toward zero.** By a divisor that is not zero there is exactly
one truncated quotient, and it is the computed one; the laws of signs hold of it, and it undoes a
product.  Wherever two expressions come to integers, the operator answers with it, and a divisor
that is zero it refuses, of the decimals as of the integers. -/
theorem division_truncates (a b : ℤ) :
    (b ≠ 0 →
      (∀ q, TruncatedQuotient a b q ↔ q = truncatedQuotient a b) ∧
      truncatedQuotient (-a) b = -truncatedQuotient a b ∧
      truncatedQuotient a (-b) = -truncatedQuotient a b ∧
      truncatedQuotient (a * b) b = a) ∧
    ∀ (pass : Pass) (locals : Locals) (fuel : Nat) (l r : Expr) (t : Option Ty) (σ τ υ : Store),
      (eval pass locals fuel l σ = .ok (.integer a) τ →
        eval pass locals fuel r τ = .ok (.integer b) υ →
        (b ≠ 0 → eval pass locals (fuel + 1) (.binary "/" l r t) σ =
          .ok (.integer (truncatedQuotient a b)) υ) ∧
        (b = 0 → ∃ f, eval pass locals (fuel + 1) (.binary "/" l r t) σ = .error (.fault f) υ ∧
          f.kind = "DivideByZero")) ∧
      ∀ x y : Decimal, eval pass locals fuel l σ = .ok (.decimal x) τ →
        eval pass locals fuel r τ = .ok (.decimal y) υ → y.isZero = true →
        ∃ f, eval pass locals (fuel + 1) (.binary "/" l r t) σ = .error (.fault f) υ ∧
          f.kind = "DivideByZero" := by
  refine ⟨?_, ?_⟩
  · intro hb
    have htruncates := truncatedQuotient_truncates a hb
    refine ⟨fun q => truncatedQuotient_iff_eq a hb, ?_, ?_, ?_⟩
    · exact ((truncatedQuotient_iff_eq _ hb).mp htruncates.neg_left).symm
    · exact ((truncatedQuotient_iff_eq _ (neg_ne_zero.mpr hb)).mp htruncates.neg_right).symm
    · exact ((truncatedQuotient_iff_eq _ hb).mp (.of_mul a hb)).symm
  · intro pass locals fuel l r t σ τ υ
    refine ⟨fun hl hr => ⟨?_, ?_⟩, ?_⟩
    · intro hb
      rw [eval_binary_quotient hl hr, binaryApply_quotient_integers, if_neg hb]
      rfl
    · intro hb
      refine ⟨.run .divisionByZero, ?_, rfl⟩
      rw [eval_binary_quotient hl hr, binaryApply_quotient_integers, if_pos hb]
      rfl
    · intro x y hl hr hy
      refine ⟨.run .divisionByZero, ?_, rfl⟩
      rw [eval_binary_quotient hl hr, binaryApply_quotient_zero x hy]
      rfl

/-- Seven halves are cut off to three on both sides of zero; a zero is refused as a divisor, of the
decimals also where it has a sign. -/
theorem division_truncates_halves :
    truncatedQuotient (-7) 2 = -truncatedQuotient 7 2 ∧
    eval (Host.none.evaluator .initial).1 [] 2
      (.binary "/" (.literal (.integer (-7)) none) (.literal (.integer 2) none) none) .initial =
        .ok (.integer (-3)) .initial ∧
    (∃ f, eval (Host.none.evaluator .initial).1 [] 2
      (.binary "/" (.literal (.integer (-7)) none) (.literal (.integer 0) none) none) .initial =
        .error (.fault f) .initial ∧ f.kind = "DivideByZero") ∧
    ∃ f, eval (Host.none.evaluator .initial).1 [] 2
      (.binary "/" (.literal (.decimal ⟨false, 70, -1⟩) none)
        (.literal (.decimal ⟨true, 0, -2⟩) none) none) .initial =
        .error (.fault f) .initial ∧ f.kind = "DivideByZero" := by
  have hliteral (v : Value) :
      eval (Host.none.evaluator .initial).1 [] 1 (.literal v none) .initial = .ok v .initial := rfl
  have hintegers (a b : ℤ) := ((division_truncates a b).2 _ _ _ _ _ none _ _ _).1
    (hliteral (.integer a)) (hliteral (.integer b))
  refine ⟨((division_truncates 7 2).1 (by decide)).2.1, ?_, ?_, ?_⟩
  · exact (hintegers (-7) 2).1 (by decide)
  · exact (hintegers (-7) 0).2 rfl
  · exact ((division_truncates 0 0).2 _ _ _ _ _ _ _ _ _).2 _ _
      (hliteral (.decimal ⟨false, 70, -1⟩)) (hliteral (.decimal ⟨true, 0, -2⟩)) rfl

end Parlance
