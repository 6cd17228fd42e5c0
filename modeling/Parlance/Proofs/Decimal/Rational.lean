/-
The rational number that a decimal stands for.

Two decimals may stand for one number at different scales, and the two zeros at a scale do.
What is said of the arithmetic is said in the rationals, where `10 ^ exponent` is a number
for negative exponents as well.

Rounding to the even neighbour is a relation between a rational and an integer, and has
nothing to do with how a quotient is computed: at most a half apart, and even when it is a
half.  There is one such integer to a rational, and `roundedQuotient` finds it, whatever the
signs of the two integers it divides.
-/
import Mathlib.Algebra.Order.Field.Power
import Mathlib.Algebra.Ring.Int.Parity
import Mathlib.Data.Rat.Cast.Order
import Mathlib.Tactic.FieldSimp
import Mathlib.Tactic.Linarith
import Mathlib.Tactic.NormNum.Abs
import Mathlib.Tactic.Positivity
import Mathlib.Tactic.Ring
import Parlance.Decimal.Arithmetic

namespace Parlance

/-! ### The nearest integer -/

namespace Number

/-- That an integer is the nearest one to a rational, a half to the even neighbour. -/
structure NearestEven (r : ℚ) (q : ℤ) : Prop where
  near : |r - q| ≤ 1 / 2
  even : |r - q| = 1 / 2 → Even q

theorem NearestEven.unique {r : ℚ} {q p : ℤ} (hq : NearestEven r q) (hp : NearestEven r p) :
    q = p := by
  have apart : |(q : ℚ) - p| ≤ 1 := by
    calc |(q : ℚ) - p| = |(r - p) - (r - q)| := by ring_nf
      _ ≤ |r - p| + |r - q| := abs_sub _ _
      _ ≤ 1 := by linarith [hq.near, hp.near]
  have apart' : |q - p| ≤ 1 := by exact_mod_cast apart
  by_contra hne
  -- Two different integers are then a whole apart, so the rational lies half way between them.
  have one : |(q : ℚ) - p| = 1 := by
    have : |q - p| = 1 := le_antisymm apart' (Int.one_le_abs (sub_ne_zero.mpr hne))
    exact_mod_cast this
  have middle : 1 ≤ |r - p| + |r - q| := by
    calc (1 : ℚ) = |(r - p) - (r - q)| := by rw [← one]; ring_nf
      _ ≤ |r - p| + |r - q| := abs_sub _ _
  have evenq : Even q := hq.even (by linarith [hq.near, hp.near])
  have evenp : Even p := hp.even (by linarith [hq.near, hp.near])
  obtain ⟨i, rfl⟩ := evenq
  obtain ⟨j, rfl⟩ := evenp
  rw [abs_le] at apart'
  omega

/-- What rounding leaves over is at most half of the divisor, and less if the result is odd. -/
theorem roundedQuotient_remainder (n : ℤ) {d : ℤ} (hd : 0 < d) :
    |2 * (n - d * roundedQuotient n d)| ≤ d ∧
      (|2 * (n - d * roundedQuotient n d)| = d → Even (roundedQuotient n d)) := by
  have parts : d * n.fdiv d + n.fmod d = n := Int.mul_fdiv_add_fmod n d
  have low : 0 ≤ n.fmod d := Int.fmod_nonneg_of_pos n hd
  have high : n.fmod d < d := Int.fmod_lt_of_pos n hd
  have hpos : ¬ d < 0 := by omega
  simp only [roundedQuotient, if_neg hpos]
  by_cases up : 2 * n.fmod d > d ∨ (2 * n.fmod d = d ∧ n.fdiv d % 2 = 1)
  · rw [if_pos up]
    have left : n - d * (n.fdiv d + 1) = n.fmod d - d := by rw [mul_add]; omega
    rw [left, abs_of_nonpos (by omega)]
    refine ⟨by omega, fun tie => ?_⟩
    have odd : n.fdiv d % 2 = 1 := by omega
    exact Int.even_iff.mpr (by omega)
  · rw [if_neg up]
    have left : n - d * n.fdiv d = n.fmod d := by omega
    rw [left, abs_of_nonneg (by omega)]
    exact ⟨by omega, fun tie => Int.even_iff.mpr (by omega)⟩

/-- A sign may be moved from the divisor to the dividend. -/
theorem roundedQuotient_neg (n : ℤ) {d : ℤ} (hd : d < 0) :
    roundedQuotient (-n) (-d) = roundedQuotient n d := by
  have pos : ¬ 0 < d := by omega
  simp [roundedQuotient, hd, pos]

theorem nearestEven_of_pos (n : ℤ) {d : ℤ} (hd : 0 < d) :
    NearestEven (n / d) (roundedQuotient n d) := by
  obtain ⟨half, tie⟩ := roundedQuotient_remainder n hd
  generalize roundedQuotient n d = q at half tie
  have hd' : (0 : ℚ) < d := by exact_mod_cast hd
  have scaled : |(n / d : ℚ) - q| = |2 * (n - d * q : ℤ)| / (2 * d : ℚ) := by
    rw [abs_mul, Int.cast_mul, mul_div_mul_comm]
    have : (n / d : ℚ) - q = (n - d * q : ℤ) / d := by push_cast; field_simp
    rw [this, abs_div, abs_of_pos hd']
    push_cast
    norm_num
  constructor
  · rw [scaled, div_le_div_iff₀ (by positivity) (by norm_num)]
    have : ((|2 * (n - d * q)| : ℤ) : ℚ) ≤ d := by exact_mod_cast half
    push_cast at this ⊢
    linarith
  · intro h
    rw [scaled, div_eq_div_iff (by positivity) (by norm_num)] at h
    refine tie ?_
    have : ((|2 * (n - d * q)| : ℤ) : ℚ) = d := by push_cast at h ⊢; linarith
    exact_mod_cast this

/-- **The rounded quotient is the nearest integer to the quotient**, a half to the even one. -/
theorem nearestEven_roundedQuotient (n : ℤ) {d : ℤ} (hd : d ≠ 0) :
    NearestEven (n / d) (roundedQuotient n d) := by
  rcases lt_or_gt_of_ne hd with h | h
  · have := nearestEven_of_pos (-n) (d := -d) (by omega)
    rw [roundedQuotient_neg n h] at this
    simpa using this
  · exact nearestEven_of_pos n h

theorem cast_tenTo (k : Nat) : ((tenTo k : ℤ) : ℚ) = 10 ^ (k : ℤ) := by
  simp [tenTo]

end Number

/-! ### The value of a decimal -/

namespace Decimal

open Number (NearestEven tenTo cast_tenTo)

variable {a b d : Decimal}

/-- The rational number that a decimal stands for. -/
def toRat (d : Decimal) : ℚ :=
  d.signed * 10 ^ d.exponent

theorem signed_eq_zero {d : Decimal} : d.signed = 0 ↔ d.isZero = true := by
  unfold signed isZero
  split <;> simp

@[simp] theorem toRat_negate (d : Decimal) : d.negate.toRat = -d.toRat := by
  have signs : d.negate.signed = -d.signed := by
    cases hd : d.negative <;> simp [signed, negate, hd]
  have scale : d.negate.exponent = d.exponent := rfl
  rw [toRat, signs, scale, toRat, Int.cast_neg, neg_mul]

/-- At a finer scale a decimal is written with more digits. -/
theorem toRat_eq_scaled {scale : ℤ} (h : scale ≤ d.exponent) :
    d.toRat = (d.signed * tenTo (d.exponent - scale).toNat : ℤ) * 10 ^ scale := by
  have ten : (10 : ℚ) ≠ 0 := by norm_num
  rw [toRat, Int.cast_mul, cast_tenTo, Int.toNat_of_nonneg (by omega), mul_assoc,
    ← zpow_add₀ ten, sub_add_cancel]

/-! ### Decimals by number, scale and sign of zero -/

/-- The zero with the minus sign, at any scale. -/
def IsNegativeZero (d : Decimal) : Prop :=
  d.coefficient = 0 ∧ d.negative = true

theorem natAbs_signed (d : Decimal) : d.signed.natAbs = d.coefficient := by
  unfold signed
  split <;> simp

/-- At one scale the number decides the signed coefficient. -/
theorem signed_eq_of_toRat (value : a.toRat = b.toRat) (scale : a.exponent = b.exponent) :
    a.signed = b.signed := by
  have unit : (10 : ℚ) ^ b.exponent ≠ 0 := by positivity
  rw [toRat, toRat, scale] at value
  exact_mod_cast mul_right_cancel₀ unit value

theorem coefficient_eq_of_toRat (value : a.toRat = b.toRat) (scale : a.exponent = b.exponent) :
    a.coefficient = b.coefficient := by
  rw [← natAbs_signed, ← natAbs_signed, signed_eq_of_toRat value scale]

/-- Two decimals for one number at one scale are the same, or the two zeros. -/
theorem eq_or_negate_of_toRat (value : a.toRat = b.toRat) (scale : a.exponent = b.exponent) :
    a = b ∨ a.isZero = true ∧ b = a.negate := by
  have signs := signed_eq_of_toRat value scale
  have digits := coefficient_eq_of_toRat value scale
  obtain ⟨s, n, e⟩ := a
  obtain ⟨t, m, f⟩ := b
  obtain rfl : n = m := digits
  obtain rfl : e = f := scale
  by_cases hst : s = t
  · exact .inl (by rw [hst])
  · have zero : n = 0 := by
      cases s <;> cases t <;> simp [signed] at hst signs <;> omega
    refine .inr ⟨by simp [isZero, zero], ?_⟩
    cases s <;> cases t <;> simp [negate] at hst ⊢

/-- A decimal is known by its number, its scale and, if it is zero, its sign. -/
theorem eq_of_toRat (value : a.toRat = b.toRat) (scale : a.exponent = b.exponent)
    (zero : a.IsNegativeZero ↔ b.IsNegativeZero) : a = b := by
  rcases eq_or_negate_of_toRat value scale with h | ⟨hzero, rfl⟩
  · exact h
  · have hcoefficient : a.coefficient = 0 := by simpa [isZero] using hzero
    -- one of the two zeros is negative and the other is not
    cases hsign : a.negative <;> simp [IsNegativeZero, negate, hcoefficient, hsign] at zero

end Decimal

end Parlance
