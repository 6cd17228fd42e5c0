/-
The types of operators.

Which operand types an operator accepts, and the type of its result.  The logical
operators take Booleans; the comparisons take two operands of one ordered type, equality
included; a sum with a String is a String; the other arithmetic is defined on Integer and
on Decimal and does not mix them.

The type of an operand may be left open, by the host.  That is a fault where the operator
needs to know the type, and only there.
-/
import Parlance.Operator.Basic
import Parlance.Type
import Parlance.Fault

namespace Parlance

/-- A type that must not be left open. -/
def Ty.known : Option Ty → Except Fault Ty
  | some t => .ok t
  | none => .error (.limit .openType)

/-- Refuses a source type that the target does not accept, and answers one that it accepts. -/
def Ty.require (target : Ty) (source : Option Ty) : Except Fault Ty :=
  match source with
  | none => .error (.limit .openType)
  | some s =>
    if target.accepts s then .ok s else .error (.check (.notAssignable s.name target.name))

/-- Whether a type is known, and is the built-in `b`. -/
def Ty.isKnown (t : Option Ty) (b : Builtin) : Bool :=
  t.any fun t => t.is b

namespace Operator

/-- The type of a comparison. -/
def comparisonType (left right : Option Ty) : Except Fault Ty := do
  let l ← Builtin.comparable.type.require left
  let r ← Builtin.comparable.type.require right
  if l.same r then return Builtin.boolean.type
  else throw (.check (.notComparable l.name r.name))

/-- The type of a logical operation. -/
def logicalType (left right : Option Ty) : Except Fault Ty := do
  let _ ← Builtin.boolean.type.require left
  let _ ← Builtin.boolean.type.require right
  return Builtin.boolean.type

/-- The type of arithmetic on numbers. -/
def numberType (op : Arithmetic) (left right : Option Ty) : Except Fault Ty := do
  let name := (arithmetic op).text
  let l ← Ty.known left
  if l.is .integer || l.is .decimal then
    let r ← Ty.known right
    if r.same l then return l else throw (.check (.mixedOperands name l.name r.name))
  else throw (.check (.operandType name l.name))

/-- The type of an operator's result on operands of two types. -/
def resultType (op : Operator) (left right : Option Ty) : Except Fault Ty :=
  match op with
  | and | or => logicalType left right
  | equal | notEqual | ordered _ => comparisonType left right
  | arithmetic .sum =>
    if Ty.isKnown left .string || Ty.isKnown right .string then .ok Builtin.string.type
    else numberType .sum left right
  | arithmetic op => numberType op left right

end Operator

/-- The type of a binary expression, its operator given by name. -/
def binaryType (op : Name) (left right : Option Ty) : Except Fault Ty :=
  match Operator.ofName? op with
  | some o => o.resultType left right
  | none => .error (.check (.unknownOperator op))

end Parlance
