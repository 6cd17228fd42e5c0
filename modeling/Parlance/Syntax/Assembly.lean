/-
Trees from sketches.

Every part of a sketch takes its place in a tree: a node where one of its form belongs
becomes the node that it sketches, without annotations, and anything else a hole.  Nothing
is refused.
-/
import Parlance.Syntax.Basic

namespace Parlance.Sketch

mutual

/-- What stands in a place for an expression. -/
def toExpr : Sketch → Expr
  | node .literal [value v, _] => .literal v none
  | node .group [inner, _] => .group inner.toExpr none
  | node .binary [operator, left, right, _] =>
    .binary operator.text? left.toExpr right.toExpr none
  | node .access [absent, name, _, _] => .access name.text? none none
  | node .access [receiver, name, _, _] => .member receiver.toExpr name.text? none none
  | node .call [absent, name, arguments, _, _] => .call name.text? arguments.toExprs none none
  | node .call [receiver, name, arguments, _, _] =>
    .memberCall receiver.toExpr name.text? arguments.toExprs none none
  | s => .hole (.stray s)

/-- What stands in a part for a list of expressions. -/
def toExprs : Sketch → List Expr
  | list items => exprs items
  | _ => [.hole .unlisted]

/-- What stands in places for expressions. -/
def exprs : List Sketch → List Expr
  | [] => []
  | s :: rest => s.toExpr :: exprs rest

end

/-- What stands in a part for an expression that may be missing. -/
def toExpr? : Sketch → Option Expr
  | absent => none
  | s => some s.toExpr

mutual

/-- What stands in a place for a statement. -/
def toStmt : Sketch → Stmt
  | node .expression [inner] => .expression inner.toExpr
  | node .declaration [name, typeName, initial, _] =>
    .declaration name.text? typeName.text? initial.toExpr? none
  | node .assignment [target, source] => .assignment target.toExpr source.toExpr
  | node .conditional [condition, thenBody, elseBody] =>
    .conditional condition.toExpr thenBody.toStmts elseBody.toStmts
  | node .forEach [name, items, body] => .forEach name.text? items.toExpr body.toStmts
  | node .whileLoop [condition, body] => .whileLoop condition.toExpr body.toStmts
  | node .returning [result] => .returning result.toExpr
  | s => .hole (.stray s)

/-- What stands in a part for a list of statements. -/
def toStmts : Sketch → List Stmt
  | list items => stmts items
  | _ => [.hole .unlisted]

/-- What stands in places for statements. -/
def stmts : List Sketch → List Stmt
  | [] => []
  | s :: rest => s.toStmt :: stmts rest

end

/-- What stands in a place for a field. -/
def toField : Sketch → FieldPlace
  | node .field [name, typeName, initial, _] =>
    .field ⟨name.text?, typeName.text?, initial.toExpr?, none⟩
  | node .declaration [name, typeName, initial, _] =>
    .declaration ⟨name.text?, typeName.text?, initial.toExpr?, none⟩
  | s => .hole (.stray s)

/-- What stands in a place for a method. -/
def toMethod : Sketch → MethodPlace
  | node .method [name, list parameters, list types, result, body, _] =>
    .method ⟨name.text?, parameters.map text?, types.map text?, result.text?, body.toStmts, none⟩
  | node .method [name, list parameters, _, result, body, _] =>
    .untyped ⟨name.text?, parameters.map text?, [], result.text?, body.toStmts, none⟩
  | s => .hole (.stray s)

/-- What stands in a part for a list of fields. -/
def toFields : Sketch → List FieldPlace
  | list items => items.map toField
  | _ => [.hole .unlisted]

/-- What stands in a part for a list of methods. -/
def toMethods : Sketch → List MethodPlace
  | list items => items.map toMethod
  | _ => [.hole .unlisted]

/-- The source that a sketch is of; what is no source has neither fields nor methods. -/
def toSource : Sketch → Source
  | node .source [fields, methods] => ⟨fields.toFields, methods.toMethods⟩
  | _ => ⟨[], []⟩

end Parlance.Sketch
