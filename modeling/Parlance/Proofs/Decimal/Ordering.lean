/-
Decimals are ordered as the numbers that they stand for.

The comparison looks at the signs, then at the exponents of the leading digits, and only if these
agree at the coefficients, brought to the finer scale.  A magnitude lies between the power of ten of
its leading digit and the next one, so different leading exponents decide alone.

That the two decimals are equal in this order says that they are the same number; the equality of
the language asks for the same scale as well.
-/
import Mathlib.Order.Compare
import Parlance.Decimal.Order
import Parlance.Proofs.Decimal.Rational

namespace Parlance.Decimal

open Number (tenTo digitCount)

variable {a b d : Decimal}

/-! ### Leading digits -/

/-- A decimal without a minus sign is its coefficient at its scale. -/
theorem toRat_of_positive (h : d.negative = false) : d.toRat = d.coefficient * 10 ^ d.exponent := by
  simp [toRat, signed, h]

theorem tenTo_le_coefficient (h : d.coefficient ≠ 0) :
    tenTo (digitCount d.coefficient - 1) ≤ d.coefficient := by
  by_cases one : digitCount d.coefficient = 1
  · rw [one]
    exact Nat.one_le_iff_ne_zero.mpr h
  · have := Number.digitCount_pos d.coefficient
    exact Number.tenTo_le (by omega) (by omega)

/-- A positive magnitude is at least the power of ten of its leading digit. -/
theorem tenTo_adjusted_le (h : d.negative = false) (nonzero : d.coefficient ≠ 0) :
    (10 : ℚ) ^ d.adjusted ≤ d.toRat := by
  have ten : (10 : ℚ) ≠ 0 := by norm_num
  have unit : (0 : ℚ) < 10 ^ d.exponent := by positivity
  have digits : (10 : ℚ) ^ ((digitCount d.coefficient - 1 : Nat) : ℤ) ≤ d.coefficient := by
    rw [← Number.cast_tenTo]
    exact_mod_cast tenTo_le_coefficient nonzero
  rw [toRat_of_positive h, adjusted, add_comm, zpow_add₀ ten]
  exact mul_le_mul_of_nonneg_right digits unit.le

/-- A magnitude is less than the power of ten after its leading digit. -/
theorem lt_tenTo_adjusted (h : d.negative = false) : d.toRat < (10 : ℚ) ^ (d.adjusted + 1) := by
  have ten : (10 : ℚ) ≠ 0 := by norm_num
  have unit : (0 : ℚ) < 10 ^ d.exponent := by positivity
  have digits : (d.coefficient : ℚ) < 10 ^ (digitCount d.coefficient : ℤ) := by
    rw [← Number.cast_tenTo]
    exact_mod_cast Number.lt_tenTo_digitCount d.coefficient
  have count : d.adjusted + 1 = digitCount d.coefficient + d.exponent := by
    have := Number.digitCount_pos d.coefficient
    unfold adjusted
    omega
  rw [toRat_of_positive h, count, zpow_add₀ ten]
  exact mul_lt_mul_of_pos_right digits unit

theorem toRat_lt_of_adjusted (ha : a.negative = false) (hb : b.negative = false)
    (nonzero : b.coefficient ≠ 0) (h : a.adjusted < b.adjusted) : a.toRat < b.toRat :=
  calc a.toRat < (10 : ℚ) ^ (a.adjusted + 1) := lt_tenTo_adjusted ha
    _ ≤ 10 ^ b.adjusted := zpow_le_zpow_right₀ (by norm_num) h
    _ ≤ b.toRat := tenTo_adjusted_le hb nonzero

/-! ### The order -/

theorem toRat_nonneg (h : d.negative = false) : 0 ≤ d.toRat := by
  rw [toRat_of_positive h]
  positivity

theorem toRat_eq_zero : d.toRat = 0 ↔ d.isZero = true := by
  have unit : (10 : ℚ) ^ d.exponent ≠ 0 := by positivity
  rw [← signed_eq_zero, toRat, mul_eq_zero, or_iff_left unit, Int.cast_eq_zero]

theorem toRat_pos (h : d.negative = false) (nonzero : ¬ d.isZero = true) : 0 < d.toRat :=
  lt_of_le_of_ne (toRat_nonneg h) fun zero => nonzero (toRat_eq_zero.mp zero.symm)

/-- At one scale the coefficients are ordered as the numbers. -/
theorem compare_scaled (ha : a.negative = false) (hb : b.negative = false) :
    (compare (scaleUp a.coefficient (a.exponent - min a.exponent b.exponent).toNat)
      (scaleUp b.coefficient (b.exponent - min a.exponent b.exponent).toNat)).Compares
        a.toRat b.toRat := by
  have unit : (0 : ℚ) < 10 ^ min a.exponent b.exponent := by positivity
  have increasing : StrictMono fun n : Nat => (n : ℚ) * 10 ^ min a.exponent b.exponent :=
    fun _ _ h => mul_lt_mul_of_pos_right (Nat.cast_lt.mpr h) unit
  have scaled {d : Decimal} (hd : d.negative = false)
      (h : min a.exponent b.exponent ≤ d.exponent) :
      d.toRat = (scaleUp d.coefficient (d.exponent - min a.exponent b.exponent).toNat : Nat) *
        10 ^ min a.exponent b.exponent := by
    rw [toRat_eq_scaled h, scaleUp_eq, signed, hd, if_neg Bool.false_ne_true]
    push_cast
    rfl
  rw [scaled ha (min_le_left _ _), scaled hb (min_le_right _ _)]
  exact increasing.compares.mpr ((compare_iff _ _).mp rfl)

/-- Magnitudes are compared as numbers. -/
theorem compareMagnitude_compares (ha : a.negative = false) (hb : b.negative = false) :
    (compareMagnitude a b).Compares a.toRat b.toRat := by
  unfold compareMagnitude
  by_cases azero : a.isZero = true
  · have hazero : a.toRat = 0 := toRat_eq_zero.mpr azero
    by_cases bzero : b.isZero = true
    · rw [if_pos azero, if_pos bzero, hazero, toRat_eq_zero.mpr bzero]
      rfl
    · rw [if_pos azero, if_neg bzero, hazero]
      exact toRat_pos hb bzero
  · by_cases bzero : b.isZero = true
    · rw [if_neg azero, if_pos bzero, toRat_eq_zero.mpr bzero]
      exact toRat_pos ha azero
    · rw [if_neg azero, if_neg bzero]
      have anonzero : a.coefficient ≠ 0 := by simpa [isZero] using azero
      have bnonzero : b.coefficient ≠ 0 := by simpa [isZero] using bzero
      cases h : compare a.adjusted b.adjusted with
      | lt => exact toRat_lt_of_adjusted ha hb bnonzero (compare_lt_iff_lt.mp h)
      | gt => exact toRat_lt_of_adjusted hb ha anonzero (compare_gt_iff_gt.mp h)
      | eq => exact compare_scaled ha hb

/-- A number with a minus sign is less than one without, unless both are zero. -/
theorem toRat_lt_of_signs (ha : a.negative = true) (hb : b.negative = false)
    (zeros : ¬ (a.isZero = true ∧ b.isZero = true)) : a.toRat < b.toRat := by
  have left : a.toRat ≤ 0 := by
    have := toRat_nonneg (d := a.negate) (by simp [negate, ha])
    rw [toRat_negate] at this
    linarith
  have right := toRat_nonneg hb
  refine lt_of_le_of_ne (left.trans right) fun same => zeros ?_
  exact ⟨toRat_eq_zero.mp (by linarith), toRat_eq_zero.mp (by linarith)⟩

/-- **The order of decimals is that of their numbers.** -/
theorem order_compares (a b : Decimal) : (a.order b).Compares a.toRat b.toRat := by
  unfold order
  by_cases zeros : a.isZero = true ∧ b.isZero = true
  · rw [if_pos (by simpa using zeros), toRat_eq_zero.mpr zeros.1, toRat_eq_zero.mpr zeros.2]
    rfl
  · rw [if_neg (by simpa using zeros)]
    cases ha : a.negative <;> cases hb : b.negative
    · exact compareMagnitude_compares ha hb
    · exact toRat_lt_of_signs hb ha (by rwa [and_comm])
    · exact toRat_lt_of_signs ha hb zeros
    · -- with two minus signs the greater magnitude is the lesser number
      have turned := compareMagnitude_compares (a := b.negate) (b := a.negate)
        (by simp [negate, hb]) (by simp [negate, ha])
      rw [toRat_negate, toRat_negate] at turned
      exact StrictAnti.compares (fun _ _ => neg_lt_neg) |>.mp turned

/-- Two decimals are the same number and written at the same scale, or they are not equal. -/
theorem sameAtScale_iff : a.sameAtScale b = true ↔ a.toRat = b.toRat ∧ a.exponent = b.exponent := by
  rw [sameAtScale, Bool.and_eq_true, sameNumber, beq_iff_eq, beq_iff_eq,
    (order_compares a b).eq_eq]

end Parlance.Decimal
