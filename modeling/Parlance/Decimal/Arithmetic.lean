/-
Arithmetic on decimals.

Sums, differences and products are exact: a sum stands at the finer scale of its
operands, a product at the sum of theirs.  Only the bounds on exponents can intervene.
Above, a nonzero result is refused and a zero brought down to the bound; below, a result
is rounded to the last place that can be written, a half to the even neighbour.

A quotient stands at the scale of the dividend and is rounded to it, a half to the even
neighbour.
-/
import Parlance.Decimal.Basic

namespace Parlance.Decimal

open Parlance.Number (roundedQuotient maxDigits tenTo digitCount)

/-- Why an operation on decimals has no result. -/
inductive Fault where
  /-- The exact result is too large. -/
  | overflow
  /-- The quotient has more digits than a text may hold. -/
  | quotientTooLong
  /-- The quotient is too large. -/
  | quotientOverflow
  /-- The divisor is zero. -/
  | divisionByZero
deriving DecidableEq, Repr

/-- A coefficient without its last `k` digits, rounded, a half to the even neighbour. -/
def dropDigits (n : Nat) (k : Nat) : Nat :=
  if digitCount n < k then 0
  else (roundedQuotient n (tenTo k)).toNat

/-- An exact result brought within the bounds on exponents. -/
def bounded (d : Decimal) : Except Fault Decimal :=
  if maxAdjusted < d.adjusted then
    if d.isZero then .ok { d with exponent := maxAdjusted } else .error .overflow
  else if d.exponent < minExponent then
    .ok { d with
      coefficient := dropDigits d.coefficient (minExponent - d.exponent).toNat
      exponent := minExponent }
  else .ok d

/-- The exact sum. A zero sum is negative only if both of its parts are. -/
def exactSum (a b : Decimal) : Decimal :=
  let e := min a.exponent b.exponent
  let x := scaleUp a.coefficient (a.exponent - e).toNat
  let y := scaleUp b.coefficient (b.exponent - e).toNat
  if a.negative = b.negative then ⟨a.negative, x + y, e⟩
  else if x = y then ⟨false, 0, e⟩
  else if x < y then ⟨b.negative, y - x, e⟩
  else ⟨a.negative, x - y, e⟩

/-- The same number with the other sign. -/
def negate (d : Decimal) : Decimal :=
  { d with negative := !d.negative }

/-- The exact product. -/
def exactProduct (a b : Decimal) : Decimal :=
  ⟨a.negative != b.negative, a.coefficient * b.coefficient, a.exponent + b.exponent⟩

/-- The sum. -/
def add (a b : Decimal) : Except Fault Decimal :=
  bounded (exactSum a b)

/-- The difference. -/
def sub (a b : Decimal) : Except Fault Decimal :=
  bounded (exactSum a b.negate)

/-- The product. -/
def mul (a b : Decimal) : Except Fault Decimal :=
  bounded (exactProduct a b)

/-- The signed coefficient of the quotient at the scale of the dividend. -/
def quotientCoefficient (a b : Decimal) : Int :=
  if 0 ≤ b.exponent then
    roundedQuotient a.signed (b.signed * (tenTo b.exponent.toNat : Int))
  else
    roundedQuotient (a.signed * (tenTo (-b.exponent).toNat : Int)) b.signed

/-- The quotient, at the scale of the dividend. -/
def div (a b : Decimal) : Except Fault Decimal :=
  if b.isZero then .error .divisionByZero
  else
    let q := quotientCoefficient a b
    let d : Decimal := ⟨q < 0, q.natAbs, a.exponent⟩
    if maxDigits < digitCount q.natAbs then .error .quotientTooLong
    else if maxAdjusted < d.adjusted then .error .quotientOverflow
    else .ok d

end Parlance.Decimal
