/-
Decimals.

A decimal is a sign, a coefficient and a power of ten, and keeps all three: `1.0` and
`1.00` are the same number at different scales, and zero has two signs at every scale.
Exponents are bounded on both sides, so wide that only results far beyond practice meet
the bounds.
-/
import Parlance.Number.Integer

namespace Parlance

/-- The number `± coefficient · 10 ^ exponent`, at the scale its exponent gives. -/
structure Decimal where
  negative : Bool
  coefficient : Nat
  exponent : Int
deriving DecidableEq, Repr, Inhabited

namespace Decimal

open Parlance.Number (tenTo digitCount)

/-- The largest exponent of a leading digit. -/
def maxAdjusted : Int := 999999999999999999

/-- The smallest exponent of a last digit. -/
def minExponent : Int := -1999999999999999997

/-- The exponent of the leading digit. -/
def adjusted (d : Decimal) : Int :=
  d.exponent + (digitCount d.coefficient - 1 : Nat)

/-- The coefficient with its sign. -/
def signed (d : Decimal) : Int :=
  if d.negative then -(d.coefficient : Int) else d.coefficient

/-- A zero of either sign, at any scale. -/
def isZero (d : Decimal) : Bool :=
  d.coefficient == 0

/-- Whether both bounds on exponents hold. -/
def InRange (d : Decimal) : Prop :=
  d.adjusted ≤ maxAdjusted ∧ minExponent ≤ d.exponent

instance (d : Decimal) : Decidable d.InRange := by
  unfold InRange; infer_instance

/-- A coefficient written with `k` more digits, all zero. Zero stays itself at once. -/
def scaleUp (n : Nat) (k : Nat) : Nat :=
  if n = 0 then 0 else n * tenTo k

theorem scaleUp_eq (n k : Nat) : scaleUp n k = n * tenTo k := by
  unfold scaleUp
  split <;> simp_all

end Decimal

end Parlance
