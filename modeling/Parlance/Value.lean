/-
Values.

A value belongs to one of seven built-in kinds, or is an object that the host made.  Every
value has a kind, which is the name of a type, and a text, which is what `print` writes.
Only integers can fail to have a text.  A character is any one code point.

Equality is by kind and content.  Decimals are equal when they are the same number at the
same scale, objects when they are the same object.
-/
import Parlance.Type
import Parlance.Fault
import Parlance.Decimal.Numeral
import Parlance.Decimal.Order
import Parlance.Number.Integer

namespace Parlance

/-- An object of the host: its identity, its type, and the table of its own members. -/
structure Object where
  id : Nat
  type : Ty
  members : TableId
deriving DecidableEq, Repr, Inhabited

/-- A value. -/
inductive Value where
  | nil
  | boolean (value : Bool)
  | character (value : CodePoint)
  | string (value : Text)
  | integer (value : Int)
  | decimal (value : Decimal)
  | iterable (items : List Int)
  | object (value : Object)
deriving DecidableEq, Repr, Inhabited

namespace Value

/-- The name of the type of a value. -/
def kind : Value → Text
  | nil => Builtin.nil.name
  | boolean _ => Builtin.boolean.name
  | character _ => Builtin.character.name
  | string _ => Builtin.string.name
  | integer _ => Builtin.integer.name
  | decimal _ => Builtin.decimal.name
  | iterable _ => Builtin.integerIterable.name
  | object o => o.type.name

/-- The name of the variant of a value, in messages about literals. -/
def variant : Value → String
  | nil => "VNil"
  | boolean _ => "VBool"
  | character _ => "VChar"
  | string _ => "VString"
  | integer _ => "VInt"
  | decimal _ => "VDecimal"
  | iterable _ => "VIterable"
  | object _ => "VObject"

/-- The text of an integer. -/
def integerText (n : Int) : Except Limit String :=
  match Number.text? n with
  | some t => .ok t
  | none => .error .integerText

/-- The text of a value. -/
def text : Value → Except Limit Text
  | nil => .ok "nil"
  | boolean b => .ok (if b then "true" else "false")
  | character c => .ok (Text.singleton c)
  | string s => .ok s
  | integer n => do return (← integerText n)
  | decimal d => .ok d.text
  | iterable items => do
    return "[" ++ String.intercalate ", " (← items.mapM integerText) ++ "]"
  | object o => .ok ("<" ++ o.type.name ++ ">")

/-- Whether two values are equal, as the program sees it. -/
def same : Value → Value → Bool
  | nil, nil => true
  | boolean a, boolean b => a == b
  | character a, character b => a == b
  | string a, string b => a == b
  | integer a, integer b => a == b
  | decimal a, decimal b => a.sameAtScale b
  | iterable a, iterable b => a == b
  | object a, object b => a.id == b.id
  | _, _ => false

/-- The character that a text consists of, if it is one character. -/
def ofCharacterText? (t : Text) : Option Value :=
  match t.toList with
  | [c] => some (character c)
  | _ => none

end Value

end Parlance
