/-
Walking a tree.

A walk yields a node, then walks its children in the order they stand in the source, so
each node comes before everything below it.  Where a list is missing the walk meets a gap,
which has no name.
-/
import Parlance.Syntax.Basic

namespace Parlance

/-- A node of any sort. -/
inductive Node where
  | source (node : Source)
  | field (node : FieldPlace)
  | method (node : MethodPlace)
  | stmt (node : Stmt)
  | expr (node : Expr)
  /-- What stands where it does not belong, or below it. -/
  | stray (node : Sketch)
  /-- No node, but the place of a list that is missing. -/
  | gap
deriving Inhabited

/-- The name of a node in documents and messages. -/
def Node.name? : Node → Option String
  | source _ => some Form.source.name
  | field f => some f.nodeName
  | method m => some m.nodeName
  | stmt s => some s.nodeName
  | expr e => some e.nodeName
  | stray s => some s.formName
  | gap => none

/-- The type of a node, if it is an expression that has one. -/
def Node.type? : Node → Option Ty
  | expr e => e.type?
  | _ => none

/-- The name of a node, and the name of its type if it has one. -/
def Node.label? (n : Node) : Option Text :=
  n.name?.map fun name =>
    match n.type? with
    | some t => name ++ ":" ++ t.name
    | none => name

mutual

/-- A sketch and everything below it. -/
def Sketch.walk : Sketch → List Node
  | .node f parts => .stray (.node f parts) :: walkParts (f.parts.map Prod.snd) parts
  | s => [.stray s]

/-- What is below a node, its parts being of these roles. -/
def walkParts : List Role → List Sketch → List Node
  | .node :: roles, part :: parts => part.walk ++ walkParts roles parts
  | .optional :: roles, .absent :: parts => walkParts roles parts
  | .optional :: roles, part :: parts => part.walk ++ walkParts roles parts
  | .nodes :: roles, .list items :: parts => walkSketches items ++ walkParts roles parts
  | .nodes :: roles, _ :: parts => .gap :: walkParts roles parts
  | _ :: roles, _ :: parts => walkParts roles parts
  | _, _ => []

/-- Sketches one after the other. -/
def walkSketches : List Sketch → List Node
  | [] => []
  | s :: rest => s.walk ++ walkSketches rest

end

/-- What the walk meets in a hole. -/
def Hole.walk : Hole → List Node
  | .stray s => s.walk
  | .unlisted => [.gap]

mutual

/-- An expression and everything below it. -/
def Expr.walk : Expr → List Node
  | .literal v t => [.expr (.literal v t)]
  | .group e t => .expr (.group e t) :: e.walk
  | .binary op l r t => .expr (.binary op l r t) :: (l.walk ++ r.walk)
  | .access n v t => [.expr (.access n v t)]
  | .member r n v t => .expr (.member r n v t) :: r.walk
  | .call n as f t => .expr (.call n as f t) :: walkExprs as
  | .memberCall r n as f t => .expr (.memberCall r n as f t) :: (r.walk ++ walkExprs as)
  | .hole h => h.walk

/-- Expressions one after the other. -/
def walkExprs : List Expr → List Node
  | [] => []
  | e :: es => e.walk ++ walkExprs es

end

/-- An expression that may be missing. -/
def walkOption : Option Expr → List Node
  | none => []
  | some e => e.walk

mutual

/-- A statement and everything below it. -/
def Stmt.walk : Stmt → List Node
  | .expression e => .stmt (.expression e) :: e.walk
  | .declaration n t v x => .stmt (.declaration n t v x) :: walkOption v
  | .assignment t v => .stmt (.assignment t v) :: (t.walk ++ v.walk)
  | .conditional c a b => .stmt (.conditional c a b) :: (c.walk ++ (walkStmts a ++ walkStmts b))
  | .forEach n v b => .stmt (.forEach n v b) :: (v.walk ++ walkStmts b)
  | .whileLoop c b => .stmt (.whileLoop c b) :: (c.walk ++ walkStmts b)
  | .returning v => .stmt (.returning v) :: v.walk
  | .hole h => h.walk

/-- Statements one after the other. -/
def walkStmts : List Stmt → List Node
  | [] => []
  | s :: ss => s.walk ++ walkStmts ss

end

/-- What the walk meets in a place for a field. -/
def FieldPlace.walk : FieldPlace → List Node
  | .field f => .field (.field f) :: walkOption f.value
  | .declaration f => .field (.declaration f) :: walkOption f.value
  | .hole h => h.walk

/-- What the walk meets in a place for a method. -/
def MethodPlace.walk : MethodPlace → List Node
  | .method m => .method (.method m) :: walkStmts m.body
  | .untyped m => .method (.untyped m) :: walkStmts m.body
  | .hole h => h.walk

/-- A source and everything below it. -/
def Source.walk (s : Source) : List Node :=
  .source s :: (s.fields.flatMap FieldPlace.walk ++ s.methods.flatMap MethodPlace.walk)

end Parlance
