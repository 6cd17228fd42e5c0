/-
Sums, differences and products are exact.

What an operation on two decimals should give is a rational number and a scale: that of the finer
operand for sums and differences, both scales added for products.  There is at most one decimal
for a number at a scale, but for zero, of which there are two.  If it is within the bounds on
exponents the operation gives it, so nothing is ever rounded, however many digits it takes to bring
the operands to one scale.

The sign of a zero follows rules of its own: a sum is a negative zero only if both of its parts are,
a product if their signs differ.  With these the results of nested operations are known to the last
sign, and the laws of arithmetic hold of the decimals themselves and not only of their numbers; the
one exception is the sign of a zero that a product distributes over.
-/
import Parlance.Proofs.Decimal.Rational
import Parlance.Operator.Evaluation

namespace Parlance.Decimal

open Number (tenTo)

variable {a b c d : Decimal}

/-! ### Within the bounds -/

/-- Within the bounds on exponents there is a decimal for the number at the scale. -/
def Writable (r : ℚ) (scale : ℤ) : Prop :=
  ∃ d : Decimal, d.toRat = r ∧ d.exponent = scale ∧ d.InRange

/-- The bounds only look at the number and the scale. -/
theorem inRange_of_writable (h : Writable d.toRat d.exponent) : d.InRange := by
  obtain ⟨c, value, scale, bounds⟩ := h
  have digits := coefficient_eq_of_toRat value scale
  simpa only [InRange, adjusted, digits, scale] using bounds

theorem bounded_of_inRange (h : d.InRange) : d.bounded = .ok d := by
  have above : ¬ maxAdjusted < d.adjusted := not_lt.mpr h.1
  have below : ¬ d.exponent < minExponent := not_lt.mpr h.2
  rw [bounded, if_neg above, if_neg below]

/-! ### What the operations compute -/

/-- Brought to the finer scale, the signed coefficients are added. -/
theorem signed_exactSum (a b : Decimal) :
    (exactSum a b).signed =
      a.signed * tenTo (a.exponent - min a.exponent b.exponent).toNat +
        b.signed * tenTo (b.exponent - min a.exponent b.exponent).toNat := by
  obtain ⟨s, n, e⟩ := a
  obtain ⟨t, m, f⟩ := b
  simp only [exactSum, scaleUp_eq]
  generalize tenTo (e - min e f).toNat = p
  generalize tenTo (f - min e f).toNat = q
  cases s <;> cases t <;> simp only [signed] <;> split_ifs <;> push_cast <;> grind

@[simp] theorem exponent_exactSum (a b : Decimal) :
    (exactSum a b).exponent = min a.exponent b.exponent := by
  unfold exactSum
  dsimp only
  split_ifs <;> rfl

theorem toRat_exactSum (a b : Decimal) : (exactSum a b).toRat = a.toRat + b.toRat := by
  rw [toRat_eq_scaled (min_le_left a.exponent b.exponent),
    toRat_eq_scaled (min_le_right a.exponent b.exponent), toRat, signed_exactSum,
    exponent_exactSum]
  push_cast
  ring

/-- A sum is a negative zero only if both of its parts are. -/
theorem isNegativeZero_exactSum (a b : Decimal) :
    (exactSum a b).IsNegativeZero ↔ a.IsNegativeZero ∧ b.IsNegativeZero := by
  have scaled (n k : Nat) : scaleUp n k = 0 ↔ n = 0 := by
    simp [scaleUp_eq, (Number.tenTo_pos k).ne']
  unfold exactSum IsNegativeZero
  dsimp only
  by_cases signs : a.negative = b.negative
  · rw [if_pos signs, Nat.add_eq_zero_iff, scaled, scaled, ← signs]
    tauto
  · -- different signs: the parts are not both negative, and what cancels out is positive
    refine iff_of_false ?_ fun h => signs (h.1.2.trans h.2.2.symm)
    rw [if_neg signs]
    split_ifs with equal less
    · exact fun h => absurd h.2 (by decide)
    · exact fun h => Nat.sub_ne_zero_of_lt less h.1
    · exact fun h => Nat.sub_ne_zero_of_lt (by omega) h.1

@[simp] theorem exponent_exactProduct (a b : Decimal) :
    (exactProduct a b).exponent = a.exponent + b.exponent :=
  rfl

theorem toRat_exactProduct (a b : Decimal) : (exactProduct a b).toRat = a.toRat * b.toRat := by
  have ten : (10 : ℚ) ≠ 0 := by norm_num
  have signs : (exactProduct a b).signed = a.signed * b.signed := by
    cases ha : a.negative <;> cases hb : b.negative <;> simp [signed, exactProduct, ha, hb]
  rw [toRat, signs, exponent_exactProduct, zpow_add₀ ten, toRat, toRat, Int.cast_mul]
  ring

/-! ### What the operators give -/

/-- The operator has that decimal for its value on two others. -/
def Gives (op : Name) (a b d : Decimal) : Prop :=
  binaryApply op (.decimal a) (.decimal b) = .ok (.decimal d)

/-- An exact result as the value of an operator, or the fault that it is out of bounds. -/
def toValue (d : Decimal) : Except Parlance.Fault Value :=
  (Except.mapError Fault.cause d.bounded).map Value.decimal

theorem toValue_of_writable (h : Writable d.toRat d.exponent) : d.toValue = .ok (.decimal d) := by
  rw [toValue, bounded_of_inRange (inRange_of_writable h)]
  rfl

theorem binaryApply_sum (a b : Decimal) :
    binaryApply "+" (.decimal a) (.decimal b) = (exactSum a b).toValue :=
  rfl

theorem binaryApply_difference (a b : Decimal) :
    binaryApply "-" (.decimal a) (.decimal b) = (exactSum a b.negate).toValue :=
  rfl

theorem binaryApply_product (a b : Decimal) :
    binaryApply "*" (.decimal a) (.decimal b) = (exactProduct a b).toValue :=
  rfl

theorem gives_sum (h : Writable (a.toRat + b.toRat) (min a.exponent b.exponent)) :
    Gives "+" a b (exactSum a b) := by
  rw [Gives, binaryApply_sum]
  exact toValue_of_writable (by rwa [toRat_exactSum, exponent_exactSum])

theorem gives_difference (h : Writable (a.toRat - b.toRat) (min a.exponent b.exponent)) :
    Gives "-" a b (exactSum a b.negate) := by
  rw [Gives, binaryApply_difference]
  refine toValue_of_writable ?_
  rwa [toRat_exactSum, exponent_exactSum, toRat_negate, ← sub_eq_add_neg]

theorem gives_product (h : Writable (a.toRat * b.toRat) (a.exponent + b.exponent)) :
    Gives "*" a b (exactProduct a b) := by
  rw [Gives, binaryApply_product]
  exact toValue_of_writable (by rwa [toRat_exactProduct])

/-! ### Laws -/

theorem exactSum_comm (a b : Decimal) : exactSum a b = exactSum b a := by
  refine eq_of_toRat ?_ ?_ ?_
  · rw [toRat_exactSum, toRat_exactSum, add_comm]
  · rw [exponent_exactSum, exponent_exactSum, min_comm]
  · rw [isNegativeZero_exactSum, isNegativeZero_exactSum, and_comm]

/-- Nothing is lost in between, neither digits nor the sign of a zero. -/
theorem exactSum_assoc (a b c : Decimal) :
    exactSum (exactSum a b) c = exactSum a (exactSum b c) := by
  refine eq_of_toRat ?_ ?_ ?_
  · simp only [toRat_exactSum, add_assoc]
  · simp only [exponent_exactSum, min_assoc]
  · simp only [isNegativeZero_exactSum, and_assoc]

theorem exactProduct_comm (a b : Decimal) : exactProduct a b = exactProduct b a := by
  simp only [exactProduct, bne_comm, Nat.mul_comm, add_comm]

theorem exactProduct_assoc (a b c : Decimal) :
    exactProduct (exactProduct a b) c = exactProduct a (exactProduct b c) := by
  simp only [exactProduct, Bool.bne_assoc, Nat.mul_assoc, add_assoc]

/-- Minus one, without decimal places. -/
def minusOne : Decimal := ⟨true, 1, 0⟩

theorem exactProduct_minusOne (d : Decimal) : exactProduct minusOne d = d.negate := by
  simp [exactProduct, minusOne, negate]

theorem exactProduct_exactSum (a b c : Decimal) :
    exactProduct a (exactSum b c) = exactSum (exactProduct a b) (exactProduct a c) ∨
      (exactProduct a (exactSum b c)).isZero = true ∧
        exactSum (exactProduct a b) (exactProduct a c)
          = (exactProduct a (exactSum b c)).negate := by
  refine eq_or_negate_of_toRat ?_ ?_
  · simp only [toRat_exactProduct, toRat_exactSum, mul_add]
  · simp only [exponent_exactProduct, exponent_exactSum, min_add_add_left]

/-- The laws of exact arithmetic on three decimals, as far as the results that they speak of are
within the bounds. -/
structure ExactArithmetic (a b c : Decimal) : Prop where
  sum : Writable (a.toRat + b.toRat) (min a.exponent b.exponent) →
    ∃ d, Gives "+" a b d ∧ d.toRat = a.toRat + b.toRat ∧ d.exponent = min a.exponent b.exponent
  difference : Writable (a.toRat - b.toRat) (min a.exponent b.exponent) →
    ∃ d, Gives "-" a b d ∧ d.toRat = a.toRat - b.toRat ∧ d.exponent = min a.exponent b.exponent
  product : Writable (a.toRat * b.toRat) (a.exponent + b.exponent) →
    ∃ d, Gives "*" a b d ∧ d.toRat = a.toRat * b.toRat ∧ d.exponent = a.exponent + b.exponent
  sum_comm : binaryApply "+" (.decimal a) (.decimal b) = binaryApply "+" (.decimal b) (.decimal a)
  sum_assoc : Writable (a.toRat + b.toRat) (min a.exponent b.exponent) →
    Writable (b.toRat + c.toRat) (min b.exponent c.exponent) →
    Writable (a.toRat + b.toRat + c.toRat) (min (min a.exponent b.exponent) c.exponent) →
    ∃ x y d, Gives "+" a b x ∧ Gives "+" x c d ∧ Gives "+" b c y ∧ Gives "+" a y d
  product_comm :
    binaryApply "*" (.decimal a) (.decimal b) = binaryApply "*" (.decimal b) (.decimal a)
  product_assoc : Writable (a.toRat * b.toRat) (a.exponent + b.exponent) →
    Writable (b.toRat * c.toRat) (b.exponent + c.exponent) →
    Writable (a.toRat * b.toRat * c.toRat) (a.exponent + b.exponent + c.exponent) →
    ∃ x y d, Gives "*" a b x ∧ Gives "*" x c d ∧ Gives "*" b c y ∧ Gives "*" a y d
  /-- A difference is a sum with the negated number, negative zeros included. -/
  difference_eq_sum : Writable (-b.toRat) b.exponent →
    Writable (a.toRat - b.toRat) (min a.exponent b.exponent) →
    ∃ n d, Gives "*" minusOne b n ∧ Gives "+" a n d ∧ Gives "-" a b d
  /-- Only the sign of a zero tells a product with a sum from the sum of the products. -/
  distributes : Writable (b.toRat + c.toRat) (min b.exponent c.exponent) →
    Writable (a.toRat * b.toRat) (a.exponent + b.exponent) →
    Writable (a.toRat * c.toRat) (a.exponent + c.exponent) →
    Writable (a.toRat * (b.toRat + c.toRat)) (a.exponent + min b.exponent c.exponent) →
    ∃ s d x y e, Gives "+" b c s ∧ Gives "*" a s d ∧
      Gives "*" a b x ∧ Gives "*" a c y ∧ Gives "+" x y e ∧
      (d = e ∨ d.isZero = true ∧ e = d.negate)
  /-- What is added and taken away again leaves the number as it was. -/
  cancels : Writable (a.toRat + b.toRat) (min a.exponent b.exponent) →
    Writable a.toRat (min a.exponent b.exponent) →
    ∃ s d, Gives "+" a b s ∧ Gives "-" s b d ∧ d.toRat = a.toRat

/-- **Sums, differences and products are exact**, and so are the laws of arithmetic as far as the
bounds on exponents reach: two ways to compute a result come to the same decimal, with the same
digits, scale and sign. -/
theorem arithmetic_exact (a b c : Decimal) : ExactArithmetic a b c where
  sum h := ⟨_, gives_sum h, toRat_exactSum a b, exponent_exactSum a b⟩
  difference h := by
    refine ⟨_, gives_difference h, ?_, exponent_exactSum a b.negate⟩
    rw [toRat_exactSum, toRat_negate, sub_eq_add_neg]
  product h := ⟨_, gives_product h, toRat_exactProduct a b, rfl⟩
  sum_comm := by
    rw [binaryApply_sum, binaryApply_sum, exactSum_comm]
  sum_assoc hab hbc h := by
    refine ⟨_, _, exactSum (exactSum a b) c, gives_sum hab, gives_sum ?_, gives_sum hbc, ?_⟩
    · rwa [toRat_exactSum, exponent_exactSum]
    · rw [exactSum_assoc]
      refine gives_sum ?_
      rwa [toRat_exactSum, exponent_exactSum, ← add_assoc, ← min_assoc]
  product_comm := by
    rw [binaryApply_product, binaryApply_product, exactProduct_comm]
  product_assoc hab hbc h := by
    refine ⟨_, _, exactProduct (exactProduct a b) c, gives_product hab, gives_product ?_,
      gives_product hbc, ?_⟩
    · rwa [toRat_exactProduct]
    · rw [exactProduct_assoc]
      refine gives_product ?_
      rwa [toRat_exactProduct, ← mul_assoc, exponent_exactProduct, ← add_assoc]
  difference_eq_sum hn h := by
    have negated : Writable b.negate.toRat b.negate.exponent := by rwa [toRat_negate]
    refine ⟨b.negate, exactSum a b.negate, ?_, gives_sum ?_, gives_difference h⟩
    · rw [Gives, binaryApply_product, exactProduct_minusOne]
      exact toValue_of_writable negated
    · rwa [toRat_negate, ← sub_eq_add_neg]
  distributes hs hx hy h := by
    refine ⟨_, exactProduct a (exactSum b c), _, _, exactSum (exactProduct a b) (exactProduct a c),
      gives_sum hs, gives_product ?_, gives_product hx, gives_product hy, gives_sum ?_,
      exactProduct_exactSum a b c⟩
    · rwa [toRat_exactSum, exponent_exactSum]
    · rwa [toRat_exactProduct, toRat_exactProduct, exponent_exactProduct, exponent_exactProduct,
        ← mul_add, min_add_add_left]
  cancels hs h := by
    refine ⟨_, _, gives_sum hs, gives_difference ?_, ?_⟩
    · rwa [toRat_exactSum, exponent_exactSum, add_sub_cancel_right, min_assoc, min_self]
    · rw [toRat_exactSum, toRat_exactSum, toRat_negate, add_neg_cancel_right]

/-- `1E+40 + 1E-40` has all of its 81 digits, and without `1E+40` again comes to `1E-40`, whichever
sum is computed first. -/
theorem arithmetic_exact_apart :
    let a : Decimal := ⟨false, 1, 40⟩
    let b : Decimal := ⟨false, 1, -40⟩
    Writable (a.toRat + b.toRat) (-40) ∧
    (∃ d, Gives "+" a b d ∧ d.toRat = a.toRat + b.toRat ∧ d.exponent = -40) ∧
    Writable (b.toRat + a.negate.toRat) (-40) ∧
    Writable (a.toRat + b.toRat + a.negate.toRat) (-40) ∧
    ∃ x y d, Gives "+" a b x ∧ Gives "+" x a.negate d ∧
      Gives "+" b a.negate y ∧ Gives "+" a y d := by
  intro a b
  have hab : Writable (a.toRat + b.toRat) (-40) :=
    ⟨⟨false, 10 ^ 80 + 1, -40⟩, by norm_num [toRat, signed, a, b], rfl, by decide +kernel⟩
  have hbc : Writable (b.toRat + a.negate.toRat) (-40) :=
    ⟨⟨true, 10 ^ 80 - 1, -40⟩, by norm_num [toRat, signed, negate, a, b], rfl, by decide +kernel⟩
  have habc : Writable (a.toRat + b.toRat + a.negate.toRat) (-40) :=
    ⟨⟨false, 1, -40⟩, by norm_num [toRat, signed, negate, a, b], rfl, by decide +kernel⟩
  have laws := arithmetic_exact a b a.negate
  exact ⟨hab, laws.sum hab, hbc, habc, laws.sum_assoc hab hbc habc⟩

end Parlance.Decimal
