/-
Binary floating point of 64 bits, as numbers `± m · 2 ^ q`.

Two things are needed of it: the nearest such number to a decimal one, which may be an
infinity, and the shortest decimal text that reads back as a given one.  Both are done in
exact arithmetic on natural numbers.

A finite number is kept in its canonical form: `m` has at most 53 bits and `q` is at least
-1074, and `m` has exactly 53 bits unless `q` is -1074.
-/
import Parlance.Number.Integer

namespace Parlance.Number

/-- A number of the format; a finite one is `± mantissa · 2 ^ exponent`. -/
inductive Binary64 where
  | nan
  | infinite (negative : Bool)
  | finite (negative : Bool) (mantissa : Nat) (exponent : Int)
deriving DecidableEq, Repr, Inhabited

namespace Binary64

/-- The smallest exponent. -/
def minExponent : Int := -1074

/-- The largest exponent. -/
def maxExponent : Int := 971

/-- The least mantissa of 53 bits, `2 ^ 52`. -/
def leastNormal : Nat := 4503599627370496

/-- The two powers of `base` that make `base ^ e` when one is divided by the other. -/
def powers (base : Nat) (e : Int) : Nat × Nat :=
  (Nat.pow base e.toNat, Nat.pow base (-e).toNat)

/-! ### The nearest number -/

/-- The quotient of two natural numbers, rounded to the nearest, a half to the even neighbour. -/
def roundedRatio (n d : Nat) : Nat :=
  (roundedQuotient n d).toNat

/-- The exponent at which `n / d` has a mantissa of 53 bits, or the smallest one. -/
def exponentFor (n d : Nat) : Int :=
  let q : Int := (n.log2 : Int) - d.log2 - 52
  let (up, down) := powers 2 q
  let q := if n * down < leastNormal * (d * up) then q - 1 else q
  max q minExponent

/-- The number nearest to `± n / d`. -/
def ofRatio (negative : Bool) (n d : Nat) : Binary64 :=
  if n = 0 then .finite negative 0 minExponent
  else
    let q := exponentFor n d
    let (up, down) := powers 2 q
    let m := roundedRatio (n * down) (d * up)
    let (m, q) := if m = 2 * leastNormal then (leastNormal, q + 1) else (m, q)
    if maxExponent < q then .infinite negative else .finite negative m q

/-- The number nearest to `± coefficient · 10 ^ exponent`. A leading digit far outside the
format settles the answer without forming the power. -/
def ofDecimal (negative : Bool) (coefficient : Nat) (exponent : Int) : Binary64 :=
  let adjusted := exponent + digitCount coefficient - 1
  if coefficient = 0 ∨ adjusted < -400 then .finite negative 0 minExponent
  else if 400 < adjusted then .infinite negative
  else
    let (up, down) := powers 10 exponent
    ofRatio negative (coefficient * up) down

/-! ### The shortest text -/

/-- What reads back as a positive number: the interval around it, in quarters of the last
place of the mantissa, with its ends when the mantissa is even. -/
structure Interval where
  low : Nat
  middle : Nat
  high : Nat
  closed : Bool

/-- The interval of a finite number. Below a power of two the spacing halves. -/
def interval (mantissa : Nat) (exponent : Int) : Interval where
  low := 4 * mantissa - (if mantissa = leastNormal ∧ minExponent < exponent then 1 else 2)
  middle := 4 * mantissa
  high := 4 * mantissa + 2
  closed := mantissa % 2 == 0

/-- Of the two multiples of a unit around a point, the one within the interval and, of
two, the nearer; on a tie, the even one. All four are given over one denominator. -/
def pick? (low middle high : Nat) (closed : Bool) (unit : Nat) : Option Nat :=
  let below := middle / unit
  let above := below + 1
  let low? := if closed then low ≤ below * unit else low < below * unit
  let high? := if closed then above * unit ≤ high else above * unit < high
  let fall := middle - below * unit
  let rise := above * unit - middle
  if low? ∧ high? then
    if fall < rise ∨ (fall = rise ∧ below % 2 = 0) then some below else some above
  else if low? then some below
  else if high? then some above
  else none

/-- The multiple of `10 ^ last` that reads back as a positive finite number, if there is one. -/
def onGrid? (mantissa : Nat) (exponent : Int) (last : Int) : Option Nat :=
  let i := interval mantissa exponent
  let (up, down) := powers 2 (exponent - 2)
  let (up10, down10) := powers 10 last
  let scaled (n : Nat) : Nat := n * up * down10
  pick? (scaled i.low) (scaled i.middle) (scaled i.high) i.closed (down * up10)

/-- The exponent of the leading decimal digit of a positive finite number. -/
def leading (mantissa : Nat) (exponent : Int) : Int :=
  let (up, down) := powers 2 exponent
  digitCount (mantissa * up * tenTo 400 / down) - 401

/-- The fewest digits, up to seventeen, that read back as a positive finite number, and the
exponent of the last of them. -/
def shortest (mantissa : Nat) (exponent : Int) : Nat × Int :=
  let lead := leading mantissa exponent
  ((List.range 17).findSome? fun (k : Nat) =>
    (onGrid? mantissa exponent (lead - k)).map fun d => (d, lead - k)).getD (0, 0)

/-- Digits without the zeros at their end, and the exponent of the last digit left. -/
def stripZeros (ds : List Char) (last : Int) : List Char × Int :=
  let zeros := (ds.reverse.takeWhile (· = '0')).length
  (ds.take (ds.length - zeros), last + zeros)

/-- Digits whose last one has the exponent `last`, as a text: in place from `10 ^ -4` up to
`10 ^ 16`, with at least one digit after the point, else in scientific form with at least
two digits of exponent. -/
def render (ds : List Char) (last : Int) : List Char :=
  let lead := last + ds.length - 1
  if -4 ≤ lead ∧ lead < 16 then
    if 0 ≤ last then ds ++ List.replicate last.toNat '0' ++ ['.', '0']
    else
      let places := last.natAbs
      let ds := List.replicate (places + 1 - ds.length) '0' ++ ds
      ds.take (ds.length - places) ++ '.' :: ds.drop (ds.length - places)
  else
    let e := decimalDigits lead.natAbs
    let e := if e.length < 2 then '0' :: e else e
    let mark := 'e' :: (if lead < 0 then '-' else '+') :: e
    match ds with
    | [] => mark
    | [d] => d :: mark
    | d :: rest => d :: '.' :: rest ++ mark

/-- The shortest text that reads back as the number. -/
def text : Binary64 → String
  | .nan => "nan"
  | .infinite negative => if negative then "-inf" else "inf"
  | .finite negative m q =>
    let body :=
      if m = 0 then ['0', '.', '0']
      else
        let (d, last) := shortest m q
        let (ds, last) := stripZeros (decimalDigits d) last
        render ds last
    String.ofList (if negative then '-' :: body else body)

end Binary64

end Parlance.Number
