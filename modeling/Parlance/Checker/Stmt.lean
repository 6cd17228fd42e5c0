/-
Checking statements.

A statement has no type.  What it may have is a variable: a declaration that passes makes
one, which belongs to the block the statement stands in.  The check only answers the
variable; it is added to the block by the check of the list, or to the scope's own table
when the statement stands outside of all blocks.
-/
import Parlance.Checker.Expr

namespace Parlance

/-- Checks the value of a declaration against the type it names, and answers the type the
declared variable has: the one named, else that of the value. -/
def checkDeclared (c : Context) (name : Name) (typeName : Option Text)
    (value : Option Expr) : Option Expr × Except Fault (Option Ty) :=
  match value, typeName with
  | none, none => (none, .error (.check (.needsType name)))
  | none, some n => (none, (c.type n).map some)
  | some e, none =>
    let (e, found) := e.check c
    (some e, found)
  | some e, some n =>
    match c.type n with
    | .error f => (some e, .error f)
    | .ok declared =>
      let (e, found) := e.check c
      (some e, found.bind fun t => (declared.require t).map fun _ => some declared)

/-- Checks a condition. -/
def checkCondition (c : Context) (condition : Expr) : Expr × Except Fault Unit :=
  let (condition, found) := condition.check c
  (condition, found.bind fun t => (Builtin.boolean.type.require t).map fun _ => ())

/-- Refuses a value's type that its target does not accept. -/
def allowAssignment (target source : Option Ty) : Except Fault Unit := do
  let t ← Ty.known target
  let _ ← t.require source
  return ()

/-- Refuses a result type that the method does not promise. -/
def allowResult (expected : Ty) (got : Option Ty) : Except Fault Unit := do
  let t ← Ty.known got
  if expected.accepts t then return () else throw (.check (.result t.name expected.name))

/-- Refuses what cannot be iterated over. -/
def allowIterable (got : Option Ty) : Except Fault Unit := do
  let t ← Ty.known got
  if t.is .integerIterable then return () else throw (.check (.notIterable t.name))

namespace Stmt

mutual

/-- Checks a statement, and answers the variable it declares, if it declares one. -/
def check (c : Context) : Stmt → Stmt × Except Fault (Option Variable)
  | expression e =>
    if e.isCall then
      let (e, found) := e.check c
      (expression e, found.map fun _ => none)
    else (expression e, .error (.check (.notCall e.nodeName)))
  | declaration name typeName value bound =>
    let (value, found) := checkDeclared c name typeName value
    match found.bind (c.declare name) with
    | .ok v => (declaration name typeName value (some v), .ok (some v))
    | .error f => (declaration name typeName value bound, .error f)
  | assignment target value =>
    if target.isAccess then
      match target.check c with
      | (target, .error f) => (assignment target value, .error f)
      | (target, .ok expected) =>
        let (value, found) := value.check c
        (assignment target value,
          found.bind fun t => (allowAssignment expected t).map fun _ => none)
    else (assignment target value, .error (.check (.assignmentTarget target.nodeName)))
  | conditional condition thenBody elseBody =>
    match checkCondition c condition with
    | (condition, .error f) => (conditional condition thenBody elseBody, .error f)
    | (condition, .ok _) =>
      if thenBody.isEmpty then (conditional condition thenBody elseBody, .error (.check .emptyThen))
      else
        match checkAll (c.enter []) thenBody with
        | (thenBody, .error f) => (conditional condition thenBody elseBody, .error f)
        | (thenBody, .ok _) =>
          let (elseBody, found) := checkAll (c.enter []) elseBody
          (conditional condition thenBody elseBody, found.map fun _ => none)
  | forEach name value body =>
    let (value, found) := value.check c
    match found.bind allowIterable with
    | .error f => (forEach name value body, .error f)
    | .ok _ =>
      if body.isEmpty then (forEach name value body, .error (.check .emptyFor))
      else
        let item : Variable := ⟨name, name, some Builtin.integer.type, .block c.blocks.length⟩
        let (body, found) := checkAll (c.enter [item]) body
        (forEach name value body, found.map fun _ => none)
  | whileLoop condition body =>
    match checkCondition c condition with
    | (condition, .error f) => (whileLoop condition body, .error f)
    | (condition, .ok _) =>
      let (body, found) := checkAll (c.enter []) body
      (whileLoop condition body, found.map fun _ => none)
  | returning value =>
    match c.returns? with
    | none => (returning value, .error (.check .returnOutside))
    | some expected =>
      let (value, found) := value.check c
      (returning value, found.bind fun t => (allowResult expected t).map fun _ => none)
  | hole h => (hole h, .error (h.fault fun n => .check (.unhandledStatement n)))

/-- Checks the statements of a block one after the other, up to the first fault. -/
def checkAll (c : Context) : List Stmt → List Stmt × Except Fault Unit
  | [] => ([], .ok ())
  | s :: ss =>
    match check c s with
    | (s, .error f) => (s :: ss, .error f)
    | (s, .ok declared) =>
      let (ss, found) := checkAll (c.extend declared) ss
      (s :: ss, found)

end

end Stmt

end Parlance
