/-
Division is rounded correctly.

The quotient of two decimals is written at the scale of the dividend.  What it should be is
said without its computation: a decimal at that scale, at most half a unit of the last place
from the quotient of the two rational numbers, even if it is half a unit away, and positive
if it is zero.  There is always exactly one, and the division finds it, with whatever signs
and scales the operands have, as long as it can be written at all.
-/
import Parlance.Proofs.Decimal.Rational
import Parlance.Operator.Evaluation

namespace Parlance.Decimal

open Number (NearestEven nearestEven_roundedQuotient cast_tenTo maxDigits digitCount)

/-! ### What the quotient should be -/

/-- That a decimal is the quotient of two others, rounded at the scale of the dividend. -/
structure RoundedQuotient (x y d : Decimal) : Prop where
  scale : d.exponent = x.exponent
  near : |x.toRat / y.toRat - d.toRat| ≤ 10 ^ x.exponent / 2
  even : |x.toRat / y.toRat - d.toRat| = 10 ^ x.exponent / 2 → Even d.signed
  positive : d.isZero = true → d.negative = false

/-- In units of the last place of the dividend, the error is one of rounding to an integer. -/
theorem error_eq (x y : Decimal) {d : Decimal} (scale : d.exponent = x.exponent) :
    |x.toRat / y.toRat - d.toRat| = |x.signed / y.toRat - d.signed| * 10 ^ x.exponent := by
  have unit : (0 : ℚ) < 10 ^ x.exponent := by positivity
  have hx : x.toRat = x.signed * 10 ^ x.exponent := rfl
  have hd : d.toRat = d.signed * 10 ^ x.exponent := by rw [toRat, scale]
  calc |x.toRat / y.toRat - d.toRat|
      = |(x.signed / y.toRat - d.signed) * 10 ^ x.exponent| := by rw [hx, hd]; ring_nf
    _ = |x.signed / y.toRat - d.signed| * 10 ^ x.exponent := by rw [abs_mul, abs_of_pos unit]

theorem roundedQuotient_iff {x y d : Decimal} (scale : d.exponent = x.exponent) :
    RoundedQuotient x y d ↔
      NearestEven (x.signed / y.toRat) d.signed ∧ (d.isZero = true → d.negative = false) := by
  have unit : (0 : ℚ) < 10 ^ x.exponent := by positivity
  have half : (10 : ℚ) ^ x.exponent / 2 = 1 / 2 * 10 ^ x.exponent := by ring
  constructor
  · rintro ⟨-, near, even, positive⟩
    rw [error_eq x y scale, half] at near even
    exact ⟨⟨le_of_mul_le_mul_right near unit, fun h => even (by rw [h])⟩, positive⟩
  · rintro ⟨⟨near, even⟩, positive⟩
    refine ⟨scale, ?_, ?_, positive⟩
    · rw [error_eq x y scale, half]
      exact mul_le_mul_of_nonneg_right near unit.le
    · intro h
      rw [error_eq x y scale, half] at h
      exact even (mul_right_cancel₀ unit.ne' h)

/-- A signed coefficient at a scale as a decimal, which is no negative zero. -/
def ofSigned (q : ℤ) (exponent : ℤ) : Decimal :=
  ⟨q < 0, q.natAbs, exponent⟩

@[simp] theorem signed_ofSigned (q exponent : ℤ) : (ofSigned q exponent).signed = q := by
  simp only [signed, ofSigned, decide_eq_true_eq]
  split <;> omega

theorem ofSigned_positive {q exponent : ℤ} (h : (ofSigned q exponent).isZero = true) :
    (ofSigned q exponent).negative = false := by
  have : q = 0 := by simpa using signed_eq_zero.mpr h
  rw [this]
  rfl

/-- A decimal that is no negative zero has the sign of its signed coefficient. -/
theorem eq_ofSigned {d : Decimal} (h : d.isZero = true → d.negative = false) :
    d = ofSigned d.signed d.exponent := by
  obtain ⟨negative, coefficient, exponent⟩ := d
  simp only [isZero, beq_iff_eq] at h
  cases negative with
  | true =>
    have nonzero : coefficient ≠ 0 := fun hc => absurd (h hc) (by decide)
    simp only [ofSigned, signed, if_true, mk.injEq, and_true]
    exact ⟨by simp; omega, by omega⟩
  | false =>
    simp only [ofSigned, signed, Bool.false_eq_true, if_false, mk.injEq, and_true]
    exact ⟨by simp, by omega⟩

/-! ### What the division computes -/

/-- Neither way of scaling, nor the sign of the divisor, is seen in the coefficient. -/
theorem nearestEven_quotientCoefficient (x : Decimal) {y : Decimal} (hy : y.isZero = false) :
    NearestEven (x.signed / y.toRat) (quotientCoefficient x y) := by
  have nonzero : y.signed ≠ 0 := fun h => by simp [signed_eq_zero.mp h] at hy
  unfold quotientCoefficient
  by_cases h : 0 ≤ y.exponent
  · have scaled : y.toRat = ((y.signed * Number.tenTo y.exponent.toNat : ℤ) : ℚ) := by
      rw [Int.cast_mul, cast_tenTo, Int.toNat_of_nonneg h, toRat]
    rw [if_pos h, scaled]
    have ten := Number.tenTo_pos y.exponent.toNat
    exact nearestEven_roundedQuotient _ (mul_ne_zero nonzero (by omega))
  · have scaled : (x.signed / y.toRat : ℚ) =
        ((x.signed * Number.tenTo (-y.exponent).toNat : ℤ) : ℚ) / y.signed := by
      rw [Int.cast_mul, cast_tenTo, Int.toNat_of_nonneg (by omega), toRat, zpow_neg]
      field_simp
    rw [if_neg h, scaled]
    exact nearestEven_roundedQuotient _ nonzero

/-- The rounded quotient is unique, and its signed coefficient is the computed one. -/
theorem roundedQuotient_iff_eq (x : Decimal) {y d : Decimal} (hy : y.isZero = false) :
    RoundedQuotient x y d ↔ d = ofSigned (quotientCoefficient x y) x.exponent := by
  have computed := nearestEven_quotientCoefficient x hy
  constructor
  · intro h
    obtain ⟨nearest, positive⟩ := (roundedQuotient_iff h.scale).mp h
    rw [eq_ofSigned positive, nearest.unique computed, h.scale]
  · rintro rfl
    have scale : (ofSigned (quotientCoefficient x y) x.exponent).exponent = x.exponent := rfl
    rw [roundedQuotient_iff scale, signed_ofSigned]
    exact ⟨computed, ofSigned_positive⟩

/-- The division answers with the computed coefficient where a text and the bounds allow it. -/
theorem div_of_fits {x y : Decimal} (hy : y.isZero = false)
    (digits : digitCount (quotientCoefficient x y).natAbs ≤ maxDigits)
    (bounds : (ofSigned (quotientCoefficient x y) x.exponent).InRange) :
    x.div y = .ok (ofSigned (quotientCoefficient x y) x.exponent) := by
  have short : ¬ maxDigits < digitCount (quotientCoefficient x y).natAbs := by omega
  have small : ¬ maxAdjusted < (ofSigned (quotientCoefficient x y) x.exponent).adjusted :=
    not_lt.mpr bounds.1
  unfold ofSigned at small
  simp only [div, hy, Bool.false_eq_true, if_false, if_neg short, if_neg small]
  rfl

theorem div_of_isZero (x : Decimal) {y : Decimal} (hy : y.isZero = true) :
    x.div y = .error .divisionByZero := by
  unfold div
  rw [if_pos hy]

/-- The operator is the division, with the faults of the language. -/
theorem binaryApply_quotient (x y : Decimal) :
    binaryApply "/" (.decimal x) (.decimal y) =
      (Except.mapError Fault.cause (x.div y)).map Value.decimal :=
  rfl

/-- **Division rounds correctly at the scale of the dividend.** By a divisor that is not zero there
is exactly one rounded quotient, and the division answers with it wherever it has a text and is
within the bounds of the decimals.  A divisor that is zero is refused. -/
theorem div_rounds_correctly (x y : Decimal) :
    (y.isZero = false →
      (∃! d, RoundedQuotient x y d) ∧
      ∀ d, RoundedQuotient x y d → digitCount d.coefficient ≤ maxDigits → d.InRange →
        x.div y = .ok d ∧
        binaryApply "/" (.decimal x) (.decimal y) = .ok (.decimal d)) ∧
    (y.isZero = true →
      x.div y = .error .divisionByZero ∧
      ∃ f, binaryApply "/" (.decimal x) (.decimal y) = .error f ∧ f.kind = "DivideByZero") := by
  refine ⟨fun hy => ⟨⟨_, (roundedQuotient_iff_eq x hy).mpr rfl, fun c hc =>
    (roundedQuotient_iff_eq x hy).mp hc⟩, fun d hd digits bounds => ?_⟩, fun hy => ?_⟩
  · obtain rfl := (roundedQuotient_iff_eq x hy).mp hd
    have answer := div_of_fits hy digits bounds
    rw [binaryApply_quotient, answer]
    exact ⟨rfl, rfl⟩
  · have answer := div_of_isZero x hy
    rw [binaryApply_quotient, answer]
    exact ⟨rfl, _, rfl, rfl⟩

/-- Minus five by two is minus two and a half, and so minus two. -/
theorem div_rounds_correctly_tie :
    (⟨false, 20, -1⟩ : Decimal).isZero = false ∧
    RoundedQuotient ⟨true, 5, 0⟩ ⟨false, 20, -1⟩ ⟨true, 2, 0⟩ ∧
    div ⟨true, 5, 0⟩ ⟨false, 20, -1⟩ = .ok ⟨true, 2, 0⟩ ∧
    (⟨true, 0, -3⟩ : Decimal).isZero = true ∧
    div ⟨true, 5, 0⟩ ⟨true, 0, -3⟩ = .error .divisionByZero := by
  have rounded : RoundedQuotient ⟨true, 5, 0⟩ ⟨false, 20, -1⟩ ⟨true, 2, 0⟩ :=
    (roundedQuotient_iff_eq _ rfl).mpr (by decide +kernel)
  have answer := ((div_rounds_correctly ⟨true, 5, 0⟩ ⟨false, 20, -1⟩).1 rfl).2 _ rounded
    (by decide +kernel) (by decide +kernel)
  exact ⟨rfl, rounded, answer.1, rfl, ((div_rounds_correctly _ _).2 rfl).1⟩

end Parlance.Decimal
