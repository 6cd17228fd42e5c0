/-
Comparing decimals.

The order is that of the numbers: scale and the sign of a zero do not count.  Two
magnitudes are compared by the exponents of their leading digits first, and only when
these agree are the coefficients brought to one scale, so no power of ten is formed that
the operands do not already spell out.
-/
import Parlance.Decimal.Basic

namespace Parlance.Decimal

/-- The order of two magnitudes, signs left out. -/
def compareMagnitude (a b : Decimal) : Ordering :=
  if a.isZero then (if b.isZero then .eq else .lt)
  else if b.isZero then .gt
  else
    match compare a.adjusted b.adjusted with
    | .eq =>
      let e := min a.exponent b.exponent
      compare (scaleUp a.coefficient (a.exponent - e).toNat)
        (scaleUp b.coefficient (b.exponent - e).toNat)
    | o => o

/-- The order of two decimals as numbers. -/
def order (a b : Decimal) : Ordering :=
  if a.isZero && b.isZero then .eq
  else
    match a.negative, b.negative with
    | false, false => compareMagnitude a b
    | true, true => compareMagnitude b a
    | false, true => .gt
    | true, false => .lt

/-- Equal as numbers. -/
def sameNumber (a b : Decimal) : Bool :=
  order a b == .eq

/-- Equal as numbers and written at the same scale. -/
def sameAtScale (a b : Decimal) : Bool :=
  sameNumber a b && a.exponent == b.exponent

end Parlance.Decimal
