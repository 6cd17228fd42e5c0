/-
Renaming variables.

Names of variables stand in a tree where one is declared, where a loop has one, and where one is
accessed without a receiver.  A renaming changes all of these and no other name: a member or a
function of the same name is none of its business.
-/
import Parlance.Syntax.Basic

namespace Parlance

mutual

/-- An expression with its variables renamed. -/
def Expr.rename (f : Name → Name) : Expr → Expr
  | .literal v t => .literal v t
  | .group e t => .group (e.rename f) t
  | .binary op l r t => .binary op (l.rename f) (r.rename f) t
  | .access name v t => .access (f name) v t
  | .member receiver name v t => .member (receiver.rename f) name v t
  | .call name arguments g t => .call name (renameExprs f arguments) g t
  | .memberCall receiver name arguments g t =>
    .memberCall (receiver.rename f) name (renameExprs f arguments) g t
  | .hole h => .hole h

/-- Expressions with their variables renamed. -/
def renameExprs (f : Name → Name) : List Expr → List Expr
  | [] => []
  | e :: es => e.rename f :: renameExprs f es

end

mutual

/-- A statement with its variables renamed. -/
def Stmt.rename (f : Name → Name) : Stmt → Stmt
  | .expression e => .expression (e.rename f)
  | .declaration name typeName value v =>
    .declaration (f name) typeName (value.map (Expr.rename f)) v
  | .assignment target value => .assignment (target.rename f) (value.rename f)
  | .conditional condition thenBody elseBody =>
    .conditional (condition.rename f) (renameStmts f thenBody) (renameStmts f elseBody)
  | .forEach name value body => .forEach (f name) (value.rename f) (renameStmts f body)
  | .whileLoop condition body => .whileLoop (condition.rename f) (renameStmts f body)
  | .returning value => .returning (value.rename f)
  | .hole h => .hole h

/-- Statements with their variables renamed. -/
def renameStmts (f : Name → Name) : List Stmt → List Stmt
  | [] => []
  | s :: ss => s.rename f :: renameStmts f ss

end

/-- A method with its parameters and its other variables renamed. -/
def Method.rename (f : Name → Name) (m : Method) : Method :=
  { m with parameters := m.parameters.map f, body := renameStmts f m.body }

end Parlance
