/-
Blank characters.

Numerals may stand between blanks, and the two kinds of numeral disagree about which
characters those are.  Both start from the white space of Unicode; a decimal numeral
also lets the four information separators stand around it.
-/

namespace Parlance.Text

/-- The characters with the Unicode property `White_Space`. -/
def isSpace (c : Char) : Bool :=
  let n := c.toNat
  (0x09 ≤ n && n ≤ 0x0d) || n == 0x20 || n == 0x85 || n == 0xa0 || n == 0x1680
    || (0x2000 ≤ n && n ≤ 0x200a) || n == 0x2028 || n == 0x2029 || n == 0x202f
    || n == 0x205f || n == 0x3000

/-- The information separators: file, group, record and unit. -/
def isSeparator (c : Char) : Bool :=
  0x1c ≤ c.toNat && c.toNat ≤ 0x1f

/-- White space or a separator. -/
def isBlank (c : Char) : Bool :=
  isSpace c || isSeparator c

/-- The text without the characters in `p` at both of its ends. -/
def trim (p : Char → Bool) (cs : List Char) : List Char :=
  (((cs.dropWhile p).reverse).dropWhile p).reverse

end Parlance.Text
