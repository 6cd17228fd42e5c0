/-
Reading trees from documents.

The reader builds a tree without annotations, and ignores entries it has no use for, the
annotations of a written tree among them.  Parts are read in the order in which a node
lists them; the first fault is the answer.
-/
import Parlance.Document.Node
import Parlance.Syntax.Basic
import Parlance.Literal

namespace Parlance.Document

/-- The forms of expressions. -/
def exprForms : List String :=
  ["Literal", "Group", "Binary", "Access", "Call"]

/-- The forms of statements. -/
def stmtForms : List String :=
  ["ExpressionStmt", "Declaration", "Assignment", "If", "For", "While", "Return"]

/-- An expression. -/
def toExpr (d : Json) : Reading Expr := do
  let n ← node exprForms d
  match n.form with
  | "Literal" => return .literal (← n.part "value" fun v _ => Literal.ofPayload v) none
  | "Group" => return .group (← n.part "expression" fun v _ => toExpr v) none
  | "Binary" =>
    let op ← n.text "operator"
    let l ← n.part "left" fun v _ => toExpr v
    let r ← n.part "right" fun v _ => toExpr v
    return .binary op l r none
  | form =>
    let receiver ← n.part? "receiver" fun v _ => toExpr v
    let name ← n.text "name"
    if form = "Access" then
      match receiver with
      | none => return .access name none none
      | some r => return .member r name none none
    else
      let arguments ← n.parts "arguments" fun v _ => toExpr v
      match receiver with
      | none => return .call name arguments none none
      | some r => return .memberCall r name arguments none none
termination_by d

/-- A statement. -/
def toStmt (d : Json) : Reading Stmt := do
  let n ← node stmtForms d
  match n.form with
  | "ExpressionStmt" => return .expression (← n.part "expression" fun v _ => toExpr v)
  | "Declaration" =>
    let name ← n.text "name"
    let typeName ← n.text? "type_name"
    let value ← n.part? "value" fun v _ => toExpr v
    return .declaration name typeName value none
  | "Assignment" =>
    let target ← n.part "receiver" fun v _ => toExpr v
    let value ← n.part "value" fun v _ => toExpr v
    return .assignment target value
  | "If" =>
    let condition ← n.part "condition" fun v _ => toExpr v
    let thenBody ← n.parts "then_statements" fun v _ => toStmt v
    let elseBody ← n.parts "else_statements" fun v _ => toStmt v
    return .conditional condition thenBody elseBody
  | "For" =>
    let name ← n.text "name"
    let value ← n.part "value" fun v _ => toExpr v
    let body ← n.parts "statements" fun v _ => toStmt v
    return .forEach name value body
  | "While" =>
    let condition ← n.part "condition" fun v _ => toExpr v
    let body ← n.parts "statements" fun v _ => toStmt v
    return .whileLoop condition body
  | _ => return .returning (← n.part "value" fun v _ => toExpr v)
termination_by d

/-- A field. -/
def toField (d : Json) : Reading FieldPlace := do
  let n ← node ["Field"] d
  let name ← n.text "name"
  let typeName ← n.text? "type_name"
  let value ← n.part? "value" fun v _ => toExpr v
  return .field ⟨name, typeName, value, none⟩

/-- A method. Its parameters and their types must be as many. -/
def toMethod (d : Json) : Reading MethodPlace := do
  let n ← node ["Method"] d
  let parameters ← n.texts "parameters"
  let types ← n.texts "parameter_type_names"
  if parameters.length ≠ types.length then
    throw (.parameterLists (← n.text "name"))
  let name ← n.text "name"
  let returnTypeName ← n.text? "return_type_name"
  let body ← n.parts "statements" fun v _ => toStmt v
  return .method ⟨name, parameters.map some, types.map some, returnTypeName, body, none⟩

/-- A source. -/
def toSource (d : Json) : Reading Source := do
  let n ← node ["Source"] d
  let fields ← n.parts "fields" fun v _ => toField v
  let methods ← n.parts "methods" fun v _ => toMethod v
  return ⟨fields, methods⟩

end Parlance.Document
