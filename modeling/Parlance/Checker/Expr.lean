/-
Checking expressions.

A check answers the tree with its annotations and the type of the expression, which a
function of the host may leave open, or the first fault.  The tree is answered in either
case: what was annotated before a fault stays annotated, and what the check did not reach
keeps the annotations it had.
-/
import Parlance.Checker.Context
import Parlance.Number.Binary64

namespace Parlance

open Parlance.Number (Binary64)

/-- The range of integer literals. -/
def integerLiteralRange (n : Int) : Prop :=
  -2147483648 ≤ n ∧ n ≤ 2147483647

instance (n : Int) : Decidable (integerLiteralRange n) := by
  unfold integerLiteralRange; infer_instance

/-- Whether the binary floating point number nearest to a decimal is finite. -/
def Decimal.fitsBinary64 (d : Decimal) : Bool :=
  match Binary64.ofDecimal d.negative d.coefficient d.exponent with
  | .infinite _ => false
  | _ => true

/-- The type of a literal. -/
def literalType : Value → Except Fault Ty
  | .nil => .ok Builtin.nil.type
  | .boolean _ => .ok Builtin.boolean.type
  | .character _ => .ok Builtin.character.type
  | .string _ => .ok Builtin.string.type
  | .integer n =>
    if integerLiteralRange n then .ok Builtin.integer.type
    else
      match Value.integerText n with
      | .ok t => .error (.check (.integerOutOfRange t))
      | .error l => .error (.limit l)
  | .decimal d =>
    if d.fitsBinary64 then .ok Builtin.decimal.type
    else .error (.check (.decimalOutOfRange d.text))
  | v => .error (.check (.unsupportedLiteral v.variant))

/-- A variable together with its type, which it must have. -/
def typed (name : Name) (v : Variable) : Except Fault (Variable × Option Ty) :=
  match v.type with
  | some t => .ok (v, some t)
  | none => .error (.check (.noType name))

/-- Refuses an argument type that its parameter does not accept, the first one in order. -/
def requireAll : (parameters arguments : List (Option Ty)) → Except Fault Unit
  | p :: ps, a :: as => do
    let p ← Ty.known p
    let _ ← p.require a
    requireAll ps as
  | _, _ => .ok ()

/-- The result type of a function on arguments of some types. -/
def Function.applied (f : Function) (parameters arguments : List (Option Ty)) :
    Except Fault (Function × Option Ty) :=
  (requireAll parameters arguments).map fun _ => (f, f.returnType)

namespace Expr

/-- Whether a node is a binary expression. -/
def isBinary : Expr → Bool
  | binary .. => true
  | _ => false

/-- Whether a node is an access, with a receiver or without. -/
def isAccess : Expr → Bool
  | access .. | member .. => true
  | _ => false

/-- Whether a node is a call, with a receiver or without. -/
def isCall : Expr → Bool
  | call .. | memberCall .. => true
  | _ => false

/-- A node annotated with the type that was found, or as it was before if there was a fault. -/
def settle (node : Option Ty → Expr) (old : Option Ty) (found : Except Fault (Option Ty)) :
    Expr × Except Fault (Option Ty) :=
  match found with
  | .ok t => (node t, .ok t)
  | .error f => (node old, .error f)

/-- A node annotated with the binding and the type that were found, or as it was before. -/
def resolve {α : Type} (node : Option α → Option Ty → Expr) (bound : Option α) (old : Option Ty)
    (found : Except Fault (α × Option Ty)) : Expr × Except Fault (Option Ty) :=
  match found with
  | .ok (b, t) => (node (some b) t, .ok t)
  | .error f => (node bound old, .error f)

mutual

/-- Checks an expression. -/
def check (c : Context) : Expr → Expr × Except Fault (Option Ty)
  | literal v old => settle (literal v) old ((literalType v).map some)
  | group e old =>
    if e.isBinary then
      let (e, found) := check c e
      settle (group e) old found
    else (group e old, .error (.check (.redundantGroup e.nodeName)))
  | binary op l r old =>
    match check c l with
    | (l, .error f) => (binary op l r old, .error f)
    | (l, .ok tl) =>
      match check c r with
      | (r, .error f) => (binary op l r old, .error f)
      | (r, .ok tr) => settle (binary op l r) old ((binaryType op tl tr).map some)
  | access name bound old => resolve (access name) bound old (c.variableOf name >>= typed name)
  | member receiver name bound old =>
    if receiver.isAccess then
      match check c receiver with
      | (receiver, .error f) => (member receiver name bound old, .error f)
      | (receiver, .ok owner) =>
        resolve (member receiver name) bound old
          (Ty.known owner >>= fun t => c.memberOf t name >>= typed name)
    else (member receiver name bound old, .error (.check (.receiver receiver.nodeName)))
  | call name arguments bound old =>
    match checkAll c arguments with
    | (arguments, .error f) => (call name arguments bound old, .error f)
    | (arguments, .ok types) =>
      resolve (call name arguments) bound old
        (c.functionOf name types.length >>= fun f => f.applied f.parameterTypes types)
  | memberCall receiver name arguments bound old =>
    match checkAll c arguments with
    | (arguments, .error f) => (memberCall receiver name arguments bound old, .error f)
    | (arguments, .ok types) =>
      if receiver.isAccess then
        match check c receiver with
        | (receiver, .error f) => (memberCall receiver name arguments bound old, .error f)
        | (receiver, .ok owner) =>
          resolve (memberCall receiver name arguments) bound old
            (Ty.known owner >>= fun t => c.memberFunctionOf t name (types.length + 1) >>= fun f =>
              f.applied (f.parameterTypes.drop 1) types)
      else
        (memberCall receiver name arguments bound old,
          .error (.check (.receiver receiver.nodeName)))
  | hole h => (hole h, .error (h.fault fun n => .check (.unhandledExpression n)))

/-- Checks expressions one after the other, up to the first fault. -/
def checkAll (c : Context) : List Expr → List Expr × Except Fault (List (Option Ty))
  | [] => ([], .ok [])
  | e :: es =>
    match check c e with
    | (e, .error f) => (e :: es, .error f)
    | (e, .ok t) =>
      match checkAll c es with
      | (es, .error f) => (e :: es, .error f)
      | (es, .ok ts) => (e :: es, .ok (t :: ts))

end

end Expr

end Parlance
