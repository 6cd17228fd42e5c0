/-
The values of operators.

`AND` and `OR` may be settled by their left operand alone; every other operator needs
both.  Equality is defined on all values.  The order is defined on two Integers, two
Decimals, two Characters or two Strings, by code points on text.  A sum with a String
joins the texts of its operands; the other arithmetic is defined on two Integers and on
two Decimals.
-/
import Parlance.Operator.Basic
import Parlance.Value
import Parlance.Decimal.Arithmetic

namespace Parlance

/-- The truth of a value that must be Boolean. -/
def Value.truth : Value → Except Fault Bool
  | .boolean b => .ok b
  | v => .error (.run (.notBoolean v.kind))

/-- The order of two sequences of code points. -/
def compareCodePoints : List CodePoint → List CodePoint → Ordering
  | [], [] => .eq
  | [], _ :: _ => .lt
  | _ :: _, [] => .gt
  | a :: as, b :: bs =>
    match compare a.toNat b.toNat with
    | .eq => compareCodePoints as bs
    | o => o

/-- The order of two texts. -/
def compareTexts (a b : Text) : Ordering :=
  compareCodePoints a.toList b.toList

/-- The order of two values of one ordered kind. -/
def Value.order? : Value → Value → Option Ordering
  | .integer a, .integer b => some (compare a b)
  | .decimal a, .decimal b => some (a.order b)
  | .character a, .character b => some (compare a.toNat b.toNat)
  | .string a, .string b => some (compareTexts a b)
  | _, _ => none

namespace Ordered

/-- Whether an order is one that the operator asks for. -/
def holds : Ordered → Ordering → Bool
  | less, o => o == .lt
  | lessEqual, o => o != .gt
  | greater, o => o == .gt
  | greaterEqual, o => o != .lt

end Ordered

/-- The fault of the language, or the limit, that a failed operation on decimals stands for. -/
def Decimal.Fault.cause : Decimal.Fault → Parlance.Fault
  | .overflow => .limit .decimalOverflow
  | .quotientTooLong => .limit .integerText
  | .quotientOverflow => .limit .quotientOverflow
  | .divisionByZero => .run .divisionByZero

namespace Arithmetic

/-- The operator on two integers. -/
def onIntegers (op : Arithmetic) (a b : Int) : Except Fault Int :=
  match op with
  | sum => .ok (a + b)
  | difference => .ok (a - b)
  | product => .ok (a * b)
  | quotient =>
    if b = 0 then .error (.run .divisionByZero) else .ok (Number.truncatedQuotient a b)

/-- The operator on two decimals. -/
def onDecimals (op : Arithmetic) (a b : Decimal) : Except Fault Decimal :=
  Except.mapError Decimal.Fault.cause <|
    match op with
    | sum => a.add b
    | difference => a.sub b
    | product => a.mul b
    | quotient => a.div b

/-- The operator on two values that are not joined as texts. -/
def onNumbers (op : Arithmetic) (left right : Value) : Except Fault Value :=
  match left, right with
  | .integer a, .integer b => (op.onIntegers a b).map .integer
  | .decimal a, .decimal b => (op.onDecimals a b).map .decimal
  | _, _ => .error (.run (.operandKinds (Operator.arithmetic op).text left.kind right.kind))

end Arithmetic

/-- The texts of two values, one after the other. -/
def Value.join (left right : Value) : Except Limit Value := do
  return .string ((← left.text) ++ (← right.text))

/-- Whether a value is a String. -/
def Value.isString : Value → Bool
  | .string _ => true
  | _ => false

namespace Operator

/-- The result that the left operand alone settles, if it does. -/
def settled (op : Operator) (left : Value) : Except Fault (Option Bool) :=
  match op with
  | and => do return if ← left.truth then none else some false
  | or => do return if ← left.truth then some true else none
  | _ => .ok none

/-- The result on two values, where the left one does not settle it. -/
def apply (op : Operator) (left right : Value) : Except Fault Value :=
  match op with
  | and | or => right.truth.map .boolean
  | equal => .ok (.boolean (left.same right))
  | notEqual => .ok (.boolean (!left.same right))
  | ordered o =>
    match left.order? right with
    | some c => .ok (.boolean (o.holds c))
    | none => .error (.run (.notComparable left.kind right.kind))
  | arithmetic .sum =>
    if left.isString || right.isString then Except.mapError .limit (left.join right)
    else Arithmetic.onNumbers .sum left right
  | arithmetic a => a.onNumbers left right

end Operator

/-- What the left operand settles, the operator given by name. -/
def binarySettled (op : Name) (left : Value) : Except Fault (Option Bool) :=
  match Operator.ofName? op with
  | some o => o.settled left
  | none => .ok none

/-- The result on two values, the operator given by name. -/
def binaryApply (op : Name) (left right : Value) : Except Fault Value :=
  match Operator.ofName? op with
  | some o => o.apply left right
  | none => .error (.run (.unknownOperator op))

end Parlance
