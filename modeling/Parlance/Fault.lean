/-
What can go wrong.

A fault is the cause of a failure, not its text.  Causes fall into families by where
they arise: in tables of bindings, in the document of a tree, in a function of the host,
in checking, in evaluation.  Each has a kind and a message; the family decides whether it
is reported as an error of analysis, of evaluation, or as a plain one.

Apart from these stand the limits on the numbers themselves, which belong to no family of
the language: a text too long to form, an exponent too large to keep.  With them stands the
misuse of what the host provides.  A fault about something whose name is missing has no
message either, and is reported as such a misuse.

The stream that a program writes to may refuse a text.  That is no limit on numbers, but no
family of the language covers it either, so it is reported as the limit on texts is.  The same
becomes of a document's fault whose message would have to show too long a number.
-/
import Parlance.Text.Quoted
import Parlance.Name
import Parlance.Number.Digits

namespace Parlance

open Parlance.Text (quoted)

/-- A number in a message. -/
def Fault.count (n : Nat) : String :=
  String.ofList (Number.decimalDigits n)

/-- Faults of looking up and declaring. -/
inductive BindingFault where
  | undefinedName (name : Name)
  | undefinedFunction (name : Name)
  | undefinedMember (name : Name)
  | undefinedMemberFunction (name : Name)
  | arity (name : Name) (count : Nat)
  | noImplementation (name : Name)
  | duplicateName (name : Name)
  | duplicateFunction (name : Name) (arity : Nat)
  | unknownType (name : Name)
  | duplicateType (name : Text)
  | notAssignable (source target : Text)
deriving DecidableEq, Repr

/-- Faults of a document that is no tree, and of a text that is no literal. -/
inductive DocumentFault where
  | notNode (got : String)
  /-- What was got is missing if it holds a number too long for a text. -/
  | wrongNode (allowed : List String) (got : Option Text)
  | missing (node key : String)
  | notString (node key : String)
  | notOptionalString (node key : String)
  | notList (node key : String)
  | notStrings (node key : String)
  | parameterLists (method : Text)
  | notLiteral
  /-- The kind or the payload is missing if it holds a number too long for a text. -/
  | invalidLiteral (kind : Option Text) (raw : Option String)
  | invalidInteger (text : Text)
  | invalidDecimal (text : Text)
  | invalidEscape (text : Text)
  | notQuoted (quote : Char) (text : Text)
  | notOneCharacter (text : Text)
deriving DecidableEq, Repr

/-- Faults found by checking. -/
inductive CheckFault where
  | noEntryPoint
  | entryPointResult (got : Text)
  | needsType (name : Name)
  | parameterLists (method : Name) (parameters types : Nat)
  | unhandledStatement (node : String)
  | unhandledExpression (node : String)
  | notCall (node : String)
  | assignmentTarget (node : String)
  | notAssignable (source target : Text)
  | emptyThen
  | emptyFor
  | notIterable (type : Text)
  | returnOutside
  | result (got expected : Text)
  | redundantGroup (node : String)
  | integerOutOfRange (text : String)
  | decimalOutOfRange (text : String)
  | unsupportedLiteral (variant : String)
  | notComparable (left right : Text)
  | mixedOperands (operator left right : Text)
  | operandType (operator left : Text)
  | unknownOperator (operator : Name)
  | receiver (node : String)
  | noType (name : Name)
deriving DecidableEq, Repr

/-- Faults of evaluation. -/
inductive RunFault where
  | unhandledStatement (node : String)
  | unhandledExpression (node : String)
  | assignmentTarget (node : String)
  | notIterable (kind : Text)
  | notBoolean (kind : Text)
  | notComparable (left right : Text)
  | operandKinds (operator left right : Text)
  | unknownOperator (operator : Name)
  | divisionByZero
  | mainResult (kind : Text)
deriving DecidableEq, Repr

/-- Limits on numbers, and the misuse of what the host provides, trees among it. -/
inductive Limit where
  /-- There is no such text: the integer has more digits than one may hold. -/
  | integerText
  /-- The exact decimal is too large. -/
  | decimalOverflow
  /-- The decimal quotient is too large. -/
  | quotientOverflow
  /-- A function of the host was given a value it can do nothing with. -/
  | argumentKind
  /-- A function of the host looked for members in a value that has none of its own. -/
  | argumentMembers
  /-- A function of the host was given too few arguments. -/
  | argumentCount
  /-- The host left a type open that a check needs. -/
  | openType
  /-- A tree has nothing where a list or a name is needed. -/
  | missingPart
  /-- A tree has a node that lacks a needed part, for its form has none of that name. -/
  | strayNode
deriving DecidableEq, Repr

/-- The cause of a failure. -/
inductive Fault where
  | binding (cause : BindingFault)
  | document (cause : DocumentFault)
  | raised (kind message : String)
  | check (cause : CheckFault)
  | run (cause : RunFault)
  | limit (cause : Limit)
  /-- The stream that is written to refuses the text. -/
  | encoding
deriving DecidableEq, Repr

/-- How a fault is reported. -/
inductive Stage where
  | analysis
  | evaluation
  | plain
deriving DecidableEq, Repr

/-! ### Kinds -/

/-- The kind that a fault of looking up or declaring is reported as. -/
def BindingFault.kind : BindingFault → String
  | undefinedName _ | undefinedFunction _ | undefinedMember _ | undefinedMemberFunction _
  | noImplementation _ | unknownType _ => "UndefinedName"
  | arity .. => "ArityMismatch"
  | duplicateName _ | duplicateType _ => "DuplicateName"
  | duplicateFunction .. => "DuplicateFunction"
  | notAssignable .. => "TypeMismatch"

/-- The kind that a fault found by checking is reported as. -/
def CheckFault.kind : CheckFault → String
  | noEntryPoint => "MissingEntryPoint"
  | entryPointResult _ => "InvalidEntryPointSignature"
  | needsType _ => "AmbiguousType"
  | parameterLists .. => "MalformedAst"
  | unhandledStatement _ | unhandledExpression _ | notCall _ => "InvalidStatement"
  | assignmentTarget _ => "InvalidAssignmentTarget"
  | emptyThen | emptyFor => "EmptyBranch"
  | notIterable _ => "NotIterable"
  | returnOutside => "MissingContext"
  | redundantGroup _ => "RedundantGroup"
  | integerOutOfRange _ | decimalOutOfRange _ => "LiteralOutOfRange"
  | unknownOperator _ => "UnknownOperator"
  | receiver _ => "InvalidReceiver"
  | notAssignable .. | result .. | unsupportedLiteral _ | notComparable .. | mixedOperands ..
  | operandType .. | noType _ => "TypeMismatch"

/-- The kind that a fault of evaluation is reported as. -/
def RunFault.kind : RunFault → String
  | unhandledStatement _ | unhandledExpression _ => "InvalidStatement"
  | assignmentTarget _ => "InvalidAssignmentTarget"
  | notIterable _ | notBoolean _ | notComparable .. | operandKinds .. | mainResult _ =>
    "RuntimeTypeError"
  | unknownOperator _ => "UnknownOperator"
  | divisionByZero => "DivideByZero"

/-! ### Messages -/

/-- The message of a fault of looking up or declaring. -/
def BindingFault.message? : BindingFault → Option Text
  | undefinedName n => n.map fun n => "undefined name '" ++ n ++ "'"
  | undefinedFunction n => n.map fun n => "undefined function '" ++ n ++ "'"
  | undefinedMember n => n.map fun n => "undefined member '" ++ n ++ "'"
  | undefinedMemberFunction n => n.map fun n => "undefined member function '" ++ n ++ "'"
  | arity n k =>
    n.map fun n => "no overload of '" ++ n ++ "' takes " ++ Fault.count k ++ " arguments"
  | noImplementation n => n.map fun n => "function '" ++ n ++ "' has no implementation"
  | duplicateName n => n.map fun n => "'" ++ n ++ "' already declared"
  | duplicateFunction n k =>
    n.map fun n => "function '" ++ n ++ "/" ++ Fault.count k ++ "' already declared"
  | unknownType n => n.map fun n => "unknown type '" ++ n ++ "'"
  | duplicateType n => some ("type '" ++ n ++ "' already registered")
  | notAssignable s t => some ("cannot assign " ++ s ++ " to " ++ t)

/-- The message of a fault of a document or a literal. -/
def DocumentFault.message? : DocumentFault → Option Text
  | notNode got => some ("expected a node object, got " ++ got)
  | wrongNode allowed got =>
    got.map fun got => "expected " ++ String.intercalate " or " allowed ++ ", got " ++ got
  | missing node key => some (node ++ " is missing '" ++ key ++ "'")
  | notString node key => some (node ++ "." ++ key ++ " must be a string")
  | notOptionalString node key => some (node ++ "." ++ key ++ " must be a string or null")
  | notList node key => some (node ++ "." ++ key ++ " must be a list")
  | notStrings node key => some (node ++ "." ++ key ++ " must hold strings")
  | parameterLists m => some ("method '" ++ m ++ "' has mismatched parameter lists")
  | notLiteral => some "literal value must be an object with a 'kind'"
  | invalidLiteral kind raw => do return "invalid " ++ (← kind) ++ " literal: " ++ (← raw)
  | invalidInteger t => some ("invalid integer literal " ++ quoted t)
  | invalidDecimal t => some ("invalid decimal literal " ++ quoted t)
  | invalidEscape t => some ("invalid escape sequence in " ++ quoted t)
  | notQuoted q t =>
    some ("expected " ++ String.singleton q ++ "-quoted literal, got " ++ quoted t)
  | notOneCharacter t => some ("character literal must hold one character: " ++ quoted t)

/-- The message of a fault found by checking. -/
def CheckFault.message? : CheckFault → Option Text
  | noEntryPoint => some "no main/0 method"
  | entryPointResult got => some ("main/0 must return Integer, not " ++ got)
  | needsType n => n.map fun n => "'" ++ n ++ "' needs a type or an initial value"
  | parameterLists m k l =>
    m.map fun m => "method '" ++ m ++ "' has " ++ Fault.count k ++ " parameters but "
      ++ Fault.count l ++ " parameter types"
  | unhandledStatement n => some ("unhandled statement " ++ n)
  | unhandledExpression n => some ("unhandled expression " ++ n)
  | notCall n => some ("expression statement must be a call, got " ++ n)
  | assignmentTarget n => some ("cannot assign to " ++ n)
  | notAssignable s t => some ("cannot assign " ++ s ++ " to " ++ t)
  | emptyThen => some "IF has an empty then branch"
  | emptyFor => some "FOR has an empty body"
  | notIterable t => some ("cannot iterate over " ++ t)
  | returnOutside => some "RETURN outside of a method"
  | result got expected => some ("cannot return " ++ got ++ " from method returning " ++ expected)
  | redundantGroup n => some ("only binary expressions may be grouped, got " ++ n)
  | integerOutOfRange t => some ("integer literal " ++ t ++ " out of range")
  | decimalOutOfRange t => some ("decimal literal " ++ t ++ " out of range")
  | unsupportedLiteral v => some ("unsupported literal " ++ v)
  | notComparable l r => some ("cannot compare " ++ l ++ " with " ++ r)
  | mixedOperands o l r => some ("operator " ++ o ++ " cannot mix " ++ l ++ " and " ++ r)
  | operandType o l => some ("operator " ++ o ++ " not defined on " ++ l)
  | unknownOperator o => o.map fun o => "unknown operator '" ++ o ++ "'"
  | receiver n => some ("receiver must be a field or variable access, got " ++ n)
  | noType n => n.map fun n => "'" ++ n ++ "' has no declared type"

/-- The message of a fault of evaluation. -/
def RunFault.message? : RunFault → Option Text
  | unhandledStatement n => some ("unhandled statement " ++ n)
  | unhandledExpression n => some ("unhandled expression " ++ n)
  | assignmentTarget n => some ("cannot assign to " ++ n)
  | notIterable k => some ("cannot iterate over " ++ k)
  | notBoolean k => some ("expected Boolean, got " ++ k)
  | notComparable l r => some ("cannot compare " ++ l ++ " with " ++ r)
  | operandKinds o l r => some ("operator " ++ o ++ " not defined on " ++ l ++ " and " ++ r)
  | unknownOperator o => o.map fun o => "unknown operator '" ++ o ++ "'"
  | divisionByZero => some "division by zero"
  | mainResult k => some ("main/0 returned " ++ k ++ ", not Integer")

/-- What a limit says. -/
def Limit.message : Limit → String
  | integerText => "integer has too many digits for a text"
  | decimalOverflow => "decimal result too large"
  | quotientOverflow => "decimal quotient too large"
  | argumentKind => "argument of the wrong kind"
  | argumentMembers => "argument without members"
  | argumentCount => "too few arguments"
  | openType => "a type is missing"
  | missingPart => "a list or a name is missing"
  | strayNode => "a node stands where it does not belong"

namespace Fault

/-- The kind of a fault. -/
def kind : Fault → String
  | binding c => c.kind
  | document _ => "MalformedAst"
  | raised k _ => k
  | check c => c.kind
  | run c => c.kind
  | limit _ => "Limit"
  | encoding => "Encoding"

/-- The message of a fault. A limit has none, nor has a text that is refused. -/
def message? : Fault → Option Text
  | binding c => c.message?
  | document c => c.message?
  | raised _ m => some m
  | check c => c.message?
  | run c => c.message?
  | limit _ | encoding => none

/-- How a fault is reported. -/
def stage : Fault → Stage
  | check _ => .analysis
  | run _ => .evaluation
  | _ => .plain

/-- A fault as it is reported. -/
structure Report where
  stage : Stage
  kind : String
  message : Text
deriving DecidableEq, Repr

/-- What a fault without a message is reported as. A text that is refused is an error of a value,
as an integer that has no text is. -/
def silence : Fault → Limit
  | limit l => l
  | document _ | encoding => .integerText
  | _ => .missingPart

/-- The report of a fault, or the limit that there is in place of one. -/
def report (f : Fault) : Except Limit Report :=
  match f.message? with
  | some m => .ok ⟨f.stage, f.kind, m⟩
  | none => .error f.silence

end Fault

end Parlance
