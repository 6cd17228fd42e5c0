/-
Integers: their numerals and their division.

A numeral is an optional sign and decimal digits, between which single underscores may
stand, and white space around all of it.  Integers are unbounded, but a text holds at
most 4300 digits of one: a longer numeral is not read, and a longer integer has no text.
-/
import Parlance.Text.Blank
import Parlance.Text.Digit
import Parlance.Number.Digits

namespace Parlance.Number

open Parlance.Text (digit? ofDigits isSpace trim)

/-- The most digits an integer's text may have. -/
def maxDigits : Nat := 4300

/-- The digits of a numeral without its sign: single underscores stand between digits only. -/
def numeralDigits? : List Char → Option (List Nat)
  | [] => none
  | [c] => (digit? c).map ([·])
  | c :: '_' :: rest => do return (← digit? c) :: (← numeralDigits? rest)
  | c :: rest => do return (← digit? c) :: (← numeralDigits? rest)

/-- The value of a numeral without its sign, if it is not too long. -/
def natural? (cs : List Char) : Option Nat := do
  let ds ← numeralDigits? cs
  if ds.length ≤ maxDigits then return ofDigits ds else none

/-- The integer that a text writes. -/
def integer? (s : String) : Option Int :=
  match trim isSpace s.toList with
  | '-' :: cs => (natural? cs).map fun n => -(n : Int)
  | '+' :: cs => (natural? cs).map Int.ofNat
  | cs => (natural? cs).map Int.ofNat

/-- An integer as text, whatever its length. -/
def integerText (n : Int) : List Char :=
  if n < 0 then '-' :: decimalDigits n.natAbs else decimalDigits n.natAbs

/-- The text of an integer, if it is not too long. -/
def text? (n : Int) : Option String :=
  if digitCount n.natAbs ≤ maxDigits then some (String.ofList (integerText n)) else none

/-- The quotient cut off toward zero, the magnitudes divided and the sign put back. -/
def truncatedQuotient (a b : Int) : Int :=
  let q : Int := (a.natAbs / b.natAbs : Nat)
  if (a < 0) = (b < 0) then q else -q

/-- The quotient of two integers rounded to the nearest one, a half to the even neighbour. -/
def roundedQuotient (n d : Int) : Int :=
  let n' := if d < 0 then -n else n
  let d' := if d < 0 then -d else d
  let q := n'.fdiv d'
  let r := n'.fmod d'
  if 2 * r > d' ∨ (2 * r = d' ∧ q % 2 = 1) then q + 1 else q

end Parlance.Number
