/-
Writing trees as documents.

A document is a JSON value.  Every node becomes an object that names its form under
`_type`; its parts follow under their names, then its annotations.  A type is written as
its name, a literal as a payload of kind and text.  Values that no literal can denote, and
nodes without a form, cannot be written.  A missing name or a missing list of nodes is
written as null; a missing list of names cannot be written.
-/
import Parlance.Syntax.Basic
import Parlance.Json.Basic

namespace Parlance.Document

/-- Why something cannot be written. -/
inductive WriteFault where
  /-- It is of a kind that has no written form. -/
  | form (name : String)
  /-- It is a value that no literal denotes. -/
  | value (kind : Text)
  /-- Its text cannot be formed, or a list of names is missing. -/
  | limit (cause : Limit)
deriving DecidableEq, Repr

/-- The message of a fault; a limit has none. -/
def WriteFault.message? : WriteFault → Option Text
  | form n => some ("cannot serialize " ++ n)
  | value k => some ("cannot serialize value of kind " ++ k)
  | limit _ => none

/-- A text, or null. -/
def text? : Option Text → Json
  | none => .null
  | some s => .string s

/-- A list of names. -/
def names (ns : List Name) : Json :=
  .array (ns.map text?)

/-- A type, or null. -/
def type? (t : Option Ty) : Json :=
  text? (t.map Ty.name)

/-- A variable. -/
def variableEntry (v : Variable) : Json :=
  .object [("_type", .string "Variable"), ("name", text? v.name),
    ("target_name", text? v.targetName), ("type", type? v.type)]

/-- A function. -/
def functionEntry (f : Function) : Json :=
  .object [("_type", .string "Function"), ("name", text? f.name),
    ("target_name", text? f.targetName),
    ("parameter_types", .array (f.parameterTypes.map type?)),
    ("return_type", type? f.returnType)]

/-- A variable that may not be resolved yet. -/
def bound? (v : Option Variable) : Json :=
  (v.map variableEntry).getD .null

/-- A function that may not be resolved yet. -/
def callee? (f : Option Function) : Json :=
  (f.map functionEntry).getD .null

/-- The payload of a literal. -/
def payload (kind : Text) (value : Json) : Json :=
  .object [("kind", .string kind), ("value", value)]

/-- A value as the payload of a literal. -/
def ofValue : Value → Except WriteFault Json
  | .nil => .ok (payload Builtin.nil.name .null)
  | .boolean b => .ok (payload Builtin.boolean.name (.bool b))
  | .character c => .ok (payload Builtin.character.name (.string (Text.singleton c)))
  | .string s => .ok (payload Builtin.string.name (.string s))
  | .integer n =>
    match Value.integerText n with
    | .ok t => .ok (payload Builtin.integer.name (.string t))
    | .error l => .error (.limit l)
  | .decimal d => .ok (payload Builtin.decimal.name (.string d.text))
  | v => .error (.value v.kind)

/-- A node of some form, with its parts. -/
def ofForm (form : Form) (parts : List (Text × Json)) : Json :=
  .object (("_type", .string form.name) :: parts)

/-- Plain JSON passes through unchanged, except for what has no written form. -/
def ofPlain : Json → Except WriteFault Json
  | .null => .ok .null
  | .bool b => .ok (.bool b)
  | .integer n => .ok (.integer n)
  | .string s => .ok (.string s)
  | .array items => (ofPlainItems items).map .array
  | .number x => .error (.form (Json.number x).kindName)
  | .object es => .error (.form (Json.object es).kindName)
where
  /-- The items of a list, up to the first that has no written form. -/
  ofPlainItems : List Json → Except WriteFault (List Json)
    | [] => .ok []
    | v :: vs => do return (← ofPlain v) :: (← ofPlainItems vs)

mutual

/-- A sketch, its annotations not made. -/
def ofSketch : Sketch → Except WriteFault Json
  | .absent => .ok .null
  | .value v => ofValue v
  | .text t => .ok (.string t)
  | .list items => do return .array (← ofSketches items)
  | .node f parts => do
    if f.isBare then throw (.form f.name)
    return ofForm f (← ofParts f.parts parts)

/-- The parts of a sketch's node. -/
def ofParts : List (String × Role) → List Sketch → Except WriteFault (List (Text × Json))
  | (_, .texts) :: _, .absent :: _ => .error (.limit .missingPart)
  | (key, _) :: roles, part :: parts => do
    let d ← ofSketch part
    return (↑key, d) :: (← ofParts roles parts)
  | _, _ => .ok []

/-- Sketches one after the other. -/
def ofSketches : List Sketch → Except WriteFault (List Json)
  | [] => .ok []
  | s :: rest => do
    let d ← ofSketch s
    return d :: (← ofSketches rest)

end

/-- What stands in a hole. -/
def ofHole : Hole → Except WriteFault Json
  | .stray s => ofSketch s
  | .unlisted => .ok .null

/-- A list of expressions, given what is written for each, or null in place of a list. -/
def exprList : List Expr → List Json → Json
  | [.hole .unlisted], _ => .null
  | _, items => .array items

/-- A list of statements, given what is written for each, or null in place of a list. -/
def stmtList : List Stmt → List Json → Json
  | [.hole .unlisted], _ => .null
  | _, items => .array items

mutual

/-- An expression. -/
def ofExpr : Expr → Except WriteFault Json
  | .literal v t => do
    return ofForm .literal [("value", ← ofValue v), ("type", type? t)]
  | .group e t => do
    return ofForm .group [("expression", ← ofExpr e), ("type", type? t)]
  | .binary op l r t => do
    return ofForm .binary [("operator", text? op), ("left", ← ofExpr l), ("right", ← ofExpr r),
      ("type", type? t)]
  | .access name v t =>
    .ok (ofForm .access [("receiver", .null), ("name", text? name), ("variable", bound? v),
      ("type", type? t)])
  | .member receiver name v t => do
    return ofForm .access [("receiver", ← ofExpr receiver), ("name", text? name),
      ("variable", bound? v), ("type", type? t)]
  | .call name arguments f t => do
    return ofForm .call [("receiver", .null), ("name", text? name),
      ("arguments", exprList arguments (← ofExprs arguments)), ("function", callee? f),
      ("type", type? t)]
  | .memberCall receiver name arguments f t => do
    return ofForm .call [("receiver", ← ofExpr receiver), ("name", text? name),
      ("arguments", exprList arguments (← ofExprs arguments)), ("function", callee? f),
      ("type", type? t)]
  | .hole h => ofHole h

/-- Expressions one after the other. -/
def ofExprs : List Expr → Except WriteFault (List Json)
  | [] => .ok []
  | e :: es => do return (← ofExpr e) :: (← ofExprs es)

end

/-- An expression, or null. -/
def ofExpr? : Option Expr → Except WriteFault Json
  | none => .ok .null
  | some e => ofExpr e

mutual

/-- A statement. -/
def ofStmt : Stmt → Except WriteFault Json
  | .expression e => do
    return ofForm .expression [("expression", ← ofExpr e)]
  | .declaration name typeName value v => do
    return ofForm .declaration [("name", text? name), ("type_name", text? typeName),
      ("value", ← ofExpr? value), ("variable", bound? v)]
  | .assignment target value => do
    return ofForm .assignment [("receiver", ← ofExpr target), ("value", ← ofExpr value)]
  | .conditional condition thenBody elseBody => do
    return ofForm .conditional [("condition", ← ofExpr condition),
      ("then_statements", stmtList thenBody (← ofStmts thenBody)),
      ("else_statements", stmtList elseBody (← ofStmts elseBody))]
  | .forEach name value body => do
    return ofForm .forEach [("name", text? name), ("value", ← ofExpr value),
      ("statements", stmtList body (← ofStmts body))]
  | .whileLoop condition body => do
    return ofForm .whileLoop [("condition", ← ofExpr condition),
      ("statements", stmtList body (← ofStmts body))]
  | .returning value => do
    return ofForm .returning [("value", ← ofExpr value)]
  | .hole h => ofHole h

/-- Statements one after the other. -/
def ofStmts : List Stmt → Except WriteFault (List Json)
  | [] => .ok []
  | s :: ss => do return (← ofStmt s) :: (← ofStmts ss)

end

/-- A field, or a declaration in its place. -/
def ofField (form : Form) (f : Field) : Except WriteFault Json := do
  return ofForm form [("name", text? f.name), ("type_name", text? f.typeName),
    ("value", ← ofExpr? f.value), ("variable", bound? f.bound)]

/-- What stands in a place for a field. -/
def ofFieldPlace : FieldPlace → Except WriteFault Json
  | .field f => ofField .field f
  | .declaration f => ofField .declaration f
  | .hole h => ofHole h

/-- A list of fields, or null in place of one. -/
def ofFields : List FieldPlace → Except WriteFault Json
  | [.hole .unlisted] => .ok .null
  | ps => do return .array (← ps.mapM ofFieldPlace)

/-- A method. -/
def ofMethod (m : Method) : Except WriteFault Json := do
  return ofForm .method [("name", text? m.name), ("parameters", names m.parameters),
    ("parameter_type_names", names m.parameterTypeNames),
    ("return_type_name", text? m.returnTypeName),
    ("statements", stmtList m.body (← ofStmts m.body)), ("function", callee? m.bound)]

/-- What stands in a place for a method. -/
def ofMethodPlace : MethodPlace → Except WriteFault Json
  | .method m => ofMethod m
  | .untyped _ => .error (.limit .missingPart)
  | .hole h => ofHole h

/-- A list of methods, or null in place of one. -/
def ofMethods : List MethodPlace → Except WriteFault Json
  | [.hole .unlisted] => .ok .null
  | ps => do return .array (← ps.mapM ofMethodPlace)

/-- A source. -/
def ofSource (s : Source) : Except WriteFault Json := do
  return ofForm .source [("fields", ← ofFields s.fields), ("methods", ← ofMethods s.methods)]

end Parlance.Document
