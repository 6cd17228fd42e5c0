/-
Binary operators.

A tree names its operators by text, or leaves the name out, so a tree may hold an operator
that does not exist; what the name means is settled where the operator is used.
-/
import Parlance.Name

namespace Parlance

/-- An operator that orders two values. -/
inductive Ordered where
  | less
  | lessEqual
  | greater
  | greaterEqual
deriving DecidableEq, Repr

/-- An arithmetic operator. The sum also joins texts. -/
inductive Arithmetic where
  | sum
  | difference
  | product
  | quotient
deriving DecidableEq, Repr

/-- A binary operator. -/
inductive Operator where
  | and
  | or
  | equal
  | notEqual
  | ordered (op : Ordered)
  | arithmetic (op : Arithmetic)
deriving DecidableEq, Repr

namespace Operator

/-- The operator that a word names. -/
def ofWord? : String → Option Operator
  | "AND" => some and
  | "OR" => some or
  | "==" => some equal
  | "!=" => some notEqual
  | "<" => some (ordered .less)
  | "<=" => some (ordered .lessEqual)
  | ">" => some (ordered .greater)
  | ">=" => some (ordered .greaterEqual)
  | "+" => some (arithmetic .sum)
  | "-" => some (arithmetic .difference)
  | "*" => some (arithmetic .product)
  | "/" => some (arithmetic .quotient)
  | _ => none

/-- The operator that a text names. -/
def ofText? (t : Text) : Option Operator :=
  t.toString?.bind ofWord?

/-- The operator that a name means. -/
def ofName? (name : Name) : Option Operator :=
  name.bind ofText?

/-- The text that names an operator. -/
def text : Operator → Text
  | and => "AND"
  | or => "OR"
  | equal => "=="
  | notEqual => "!="
  | ordered .less => "<"
  | ordered .lessEqual => "<="
  | ordered .greater => ">"
  | ordered .greaterEqual => ">="
  | arithmetic .sum => "+"
  | arithmetic .difference => "-"
  | arithmetic .product => "*"
  | arithmetic .quotient => "/"

theorem ofText?_text (op : Operator) : ofText? op.text = some op := by
  cases op with
  | ordered o => cases o <;> rfl
  | arithmetic a => cases a <;> rfl
  | _ => rfl

end Operator

end Parlance
