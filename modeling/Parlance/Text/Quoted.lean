/-
Quoted text.

A message that names a text given by the user shows it in quotes, on one line.  Single
quotes are the rule; double quotes are used when the text holds a single quote and no
double one, so that neither needs a backslash.  Inside, the backslash and the quote in
use are escaped, line feed, return and tab have their letters, and every other code point
that is not printable, a surrogate always being one, is written by its number, in two, four
or eight hexadecimal digits.
-/
import Parlance.Text.Basic
import Parlance.Text.Printable

namespace Parlance.Text

/-- One hexadecimal digit, in lower case. -/
def hexDigit (n : Nat) : Char :=
  if n < 10 then Char.ofNat (0x30 + n) else Char.ofNat (0x57 + n)

/-- The last `width` hexadecimal digits of a number. -/
def hex : (width : Nat) → Nat → List Char
  | 0, _ => []
  | w + 1, n => hex w (n / 16) ++ [hexDigit (n % 16)]

/-- A code point that is not printable, by its number. -/
def numbered (n : Nat) : List Char :=
  if n < 0x100 then '\\' :: 'x' :: hex 2 n
  else if n < 0x10000 then '\\' :: 'u' :: hex 4 n
  else '\\' :: 'U' :: hex 8 n

/-- A character between quotes of the kind `quote`. -/
def quotedChar (quote c : Char) : List Char :=
  if c = quote ∨ c = '\\' then ['\\', c]
  else if c = '\n' then ['\\', 'n']
  else if c = '\r' then ['\\', 'r']
  else if c = '\t' then ['\\', 't']
  else if isPrintable c then [c]
  else numbered c.toNat

/-- A code point between quotes of the kind `quote`. -/
def quotedCodePoint (quote : Char) : CodePoint → List Char
  | .char c => quotedChar quote c
  | .surrogate s => numbered (CodePoint.surrogate s).toNat

/-- The quotes a text is shown in. -/
def quoteFor (cs : List CodePoint) : Char :=
  if cs.contains (.char '\'') && !cs.contains (.char '"') then '"' else '\''

/-- A text in quotes. -/
def quoted (t : Text) : String :=
  let quote := quoteFor t.toList
  String.ofList (quote :: t.toList.flatMap (quotedCodePoint quote) ++ [quote])

/-- A text as a string, its surrogates written by their numbers. -/
def toString (t : Text) : String :=
  String.ofList (t.toList.flatMap fun
    | .char c => [c]
    | .surrogate s => numbered (CodePoint.surrogate s).toNat)

/-- A function that asks for strings can be given texts, as strings. -/
instance {α : Type} : Coe (String → α) (Text → α) := ⟨fun f t => f t.toString⟩

end Parlance.Text
