/-
Reading JSON.

The grammar is that of RFC 8259 with three more constants, `NaN`, `Infinity` and
`-Infinity`.  A number without a point and without a power of ten is an integer, refused
when it is longer than an integer's text may be; any other is rounded to 64 bits.  A key
that occurs twice in an object keeps its last value.  Two escapes that are a pair of
surrogates are read as one character; any other escaped surrogate stays one.

A reader takes characters from the front of a text and answers what it read and what is
left, or nothing if the text is not of its form.  Readers that recur spend one unit of fuel
for at least one character, so more fuel than there are characters never runs out.
-/
import Parlance.Json.Basic

namespace Parlance.Json

open Parlance.Number (Binary64 maxDigits)
open Parlance.Text (ofDigits)

/-- A reader of an `α`. -/
abbrev Reader (α : Type) := List Char → Option (α × List Char)

/-- The text after the white space at its front. -/
def skipBlanks (cs : List Char) : List Char :=
  cs.dropWhile fun c => c == ' ' || c == '\t' || c == '\n' || c == '\r'

/-- The text after a fixed word. -/
def skip? : List Char → List Char → Option (List Char)
  | [], cs => some cs
  | w :: ws, c :: cs => if w = c then skip? ws cs else none
  | _ :: _, [] => none

/-! ### Strings -/

/-- The value of a hexadecimal digit. -/
def hexValue? (c : Char) : Option Nat :=
  if '0' ≤ c ∧ c ≤ '9' then some (c.toNat - 0x30)
  else if 'a' ≤ c ∧ c ≤ 'f' then some (c.toNat - 0x57)
  else if 'A' ≤ c ∧ c ≤ 'F' then some (c.toNat - 0x37)
  else none

/-- Four hexadecimal digits. -/
def hex4 : Reader Nat
  | a :: b :: c :: d :: rest => do
    return (((← hexValue? a) * 0x1000 + (← hexValue? b) * 0x100 + (← hexValue? c) * 0x10
      + (← hexValue? d)), rest)
  | _ => none

/-- The code point that an escape stands for, after its backslash. -/
def escapeChar : Reader CodePoint
  | '"' :: rest => some (.char '"', rest)
  | '\\' :: rest => some (.char '\\', rest)
  | '/' :: rest => some (.char '/', rest)
  | 'b' :: rest => some (.char '\x08', rest)
  | 'f' :: rest => some (.char '\x0c', rest)
  | 'n' :: rest => some (.char '\n', rest)
  | 'r' :: rest => some (.char '\r', rest)
  | 't' :: rest => some (.char '\t', rest)
  | 'u' :: rest => do
    let (high, rest) ← hex4 rest
    if 0xd800 ≤ high ∧ high ≤ 0xdbff then
      match (skip? ['\\', 'u'] rest).bind hex4 with
      | some (low, rest') =>
        if 0xdc00 ≤ low ∧ low ≤ 0xdfff then
          return (.ofNat (0x10000 + (high - 0xd800) * 0x400 + (low - 0xdc00)), rest')
        else return (.ofNat high, rest)
      | none => return (.ofNat high, rest)
    else return (.ofNat high, rest)
  | _ => none

/-- The rest of a string, after what has been read of it, last character first. Control
characters are refused. -/
def stringRest : (fuel : Nat) → List CodePoint → Reader Text
  | 0, _, _ => none
  | _ + 1, _, [] => none
  | _ + 1, before, '"' :: rest => some (Text.ofList before.reverse, rest)
  | fuel + 1, before, '\\' :: rest =>
    match escapeChar rest with
    | some (c, rest) => stringRest fuel (c :: before) rest
    | none => none
  | fuel + 1, before, c :: rest =>
    if c.toNat < 0x20 then none else stringRest fuel (.char c :: before) rest

/-! ### Numbers -/

/-- The digits at the front of a text. -/
def digits (cs : List Char) : List Nat × List Char :=
  ((cs.takeWhile Char.isDigit).map fun c => c.toNat - 0x30, cs.dropWhile Char.isDigit)

/-- The digits before the point: a zero stands alone. -/
def wholePart : Reader (List Nat)
  | '0' :: rest => some ([0], rest)
  | cs =>
    match digits cs with
    | ([], _) => none
    | (ds, rest) => some (ds, rest)

/-- The point and the digits after it, when both are there. -/
def fractionPart : Reader (List Nat)
  | '.' :: cs =>
    match digits cs with
    | ([], _) => none
    | (ds, rest) => some (ds, rest)
  | _ => none

/-- The power of ten, when it is whole. -/
def powerPart : Reader Int
  | c :: cs =>
    if c = 'e' ∨ c = 'E' then
      let (negative, cs) :=
        match cs with
        | '-' :: cs => (true, cs)
        | '+' :: cs => (false, cs)
        | cs => (false, cs)
      match digits cs with
      | ([], _) => none
      | (ds, rest) => some ((if negative then -(ofDigits ds : Int) else ofDigits ds), rest)
    else none
  | [] => none

/-- A number, after its sign. -/
def numberAfterSign (negative : Bool) : Reader Json := fun cs => do
  let (whole, cs) ← wholePart cs
  let fraction? := fractionPart cs
  let (fraction, cs) := fraction?.getD ([], cs)
  let power? := powerPart cs
  let (power, cs) := power?.getD (0, cs)
  if fraction?.isNone && power?.isNone then
    if maxDigits < whole.length then none
    let n : Int := ofDigits whole
    return (.integer (if negative then -n else n), cs)
  else
    let n := ofDigits (whole ++ fraction)
    return (.number (Binary64.ofDecimal negative n (power - fraction.length)), cs)

/-! ### Values -/

/-- A constant. -/
def constant : Reader Json := fun cs =>
  let one (word : String) (v : Json) : Option (Json × List Char) :=
    (skip? word.toList cs).map (v, ·)
  one "null" .null <|> one "true" (.bool true) <|> one "false" (.bool false)
    <|> one "NaN" (.number .nan) <|> one "Infinity" (.number (.infinite false))
    <|> one "-Infinity" (.number (.infinite true))

mutual

/-- A value, white space before it aside. -/
def value : (fuel : Nat) → Reader Json
  | 0, _ => none
  | fuel + 1, cs =>
    match skipBlanks cs with
    | [] => none
    | '"' :: rest => (stringRest fuel [] rest).map fun (s, rest) => (.string s, rest)
    | '[' :: rest =>
      match skipBlanks rest with
      | ']' :: rest => some (.array [], rest)
      | rest => (items fuel [] rest).map fun (vs, rest) => (.array vs, rest)
    | '\x7b' :: rest =>
      match skipBlanks rest with
      | '\x7d' :: rest => some (.object [], rest)
      | rest => (entries fuel [] rest).map fun (es, rest) => (.object es, rest)
    | '-' :: rest => numberAfterSign true rest <|> constant ('-' :: rest)
    | cs => numberAfterSign false cs <|> constant cs

/-- The items of a list, at least one, and the bracket that closes it, after those read before,
last item first. -/
def items : (fuel : Nat) → List Json → Reader (List Json)
  | 0, _, _ => none
  | fuel + 1, before, cs =>
    match value fuel cs with
    | none => none
    | some (v, rest) =>
      match skipBlanks rest with
      | ']' :: rest => some ((v :: before).reverse, rest)
      | ',' :: rest => items fuel (v :: before) rest
      | _ => none

/-- The entries of an object, at least one, and the brace that closes it, added to those read
before. -/
def entries : (fuel : Nat) → List (Text × Json) → Reader (List (Text × Json))
  | 0, _, _ => none
  | fuel + 1, before, cs => do
    match skipBlanks cs with
    | '"' :: rest =>
      let (key, rest) ← stringRest fuel [] rest
      match skipBlanks rest with
      | ':' :: rest =>
        let (v, rest) ← value fuel rest
        let all := insert key v before
        match skipBlanks rest with
        | '\x7d' :: rest => return (all, rest)
        | ',' :: rest => entries fuel all rest
        | _ => none
      | _ => none
    | _ => none

end

/-- The value that a whole text writes. -/
def ofText? (s : String) : Option Json := do
  let cs := s.toList
  let (v, rest) ← value (cs.length + 1) cs
  if (skipBlanks rest).isEmpty then some v else none

end Parlance.Json
