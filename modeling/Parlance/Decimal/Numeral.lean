/-
How a decimal is read and shown.

A numeral is an optional sign, digits with at most one point among or around them, and
an optional power of ten after `e` or `E`.  Underscores anywhere in it are passed over,
blanks may stand around it, and nothing is rounded: a numeral whose exponents leave the
bounds is no decimal.

A decimal is shown with its point in place when its exponent is not positive and its
leading digit is no further than the sixth place behind the point; otherwise in
scientific form, with one digit before the point.  Both forms show every digit of the
coefficient, so the scale can be read off.
-/
import Parlance.Decimal.Basic
import Parlance.Text.Blank
import Parlance.Text.Digit

namespace Parlance.Decimal

open Parlance.Text (digit? ofDigits isBlank trim)
open Parlance.Number (decimalDigits)

/-! ### Reading -/

/-- The digits at the head of a text, and what follows them. -/
def spanDigits : List Char → List Nat × List Char
  | [] => ([], [])
  | c :: cs =>
    match digit? c with
    | some d => let (ds, rest) := spanDigits cs; (d :: ds, rest)
    | none => ([], c :: cs)

/-- An optional sign, true for minus, and what follows it. -/
def spanSign : List Char → Bool × List Char
  | '-' :: cs => (true, cs)
  | '+' :: cs => (false, cs)
  | cs => (false, cs)

/-- The digits of a fraction after its point, if there is a point. -/
def spanFraction : List Char → List Nat × List Char
  | '.' :: cs => spanDigits cs
  | cs => ([], cs)

/-- The power of ten that ends a numeral; zero if nothing is left. -/
def power? : List Char → Option Int
  | [] => some 0
  | c :: cs =>
    if c = 'e' ∨ c = 'E' then
      let (negative, cs) := spanSign cs
      match spanDigits cs with
      | (d :: ds, []) =>
        let n : Int := ofDigits (d :: ds)
        some (if negative then -n else n)
      | _ => none
    else none

/-- The decimal that a text writes. -/
def ofText? (s : String) : Option Decimal := do
  let cs := (trim isBlank s.toList).filter (· ≠ '_')
  let (negative, cs) := spanSign cs
  let (whole, cs) := spanDigits cs
  let (fraction, cs) := spanFraction cs
  if whole.isEmpty && fraction.isEmpty then none
  let power ← power? cs
  let d : Decimal := ⟨negative, ofDigits (whole ++ fraction), power - fraction.length⟩
  if d.InRange then some d else none

/-! ### Showing -/

/-- An exponent with its sign. -/
def exponentText (e : Int) : List Char :=
  (if e < 0 then '-' else '+') :: decimalDigits e.natAbs

/-- The digits with a point before the last `places` of them. -/
def positional (ds : List Char) (places : Nat) : List Char :=
  if places = 0 then ds
  else
    let ds := List.replicate (places + 1 - ds.length) '0' ++ ds
    ds.take (ds.length - places) ++ '.' :: ds.drop (ds.length - places)

/-- The digits with a point after the first, and the exponent of the first. -/
def scientific (ds : List Char) (e : Int) : List Char :=
  match ds with
  | [] => []
  | [d] => d :: 'E' :: exponentText e
  | d :: rest => d :: '.' :: rest ++ 'E' :: exponentText e

/-- The text of a decimal. -/
def text (d : Decimal) : String :=
  let ds := decimalDigits d.coefficient
  let body :=
    if d.exponent ≤ 0 ∧ -6 ≤ d.adjusted then positional ds d.exponent.natAbs
    else scientific ds d.adjusted
  String.ofList (if d.negative then '-' :: body else body)

end Parlance.Decimal
