/-
Trees.

A source holds fields and methods, a method statements, and statements expressions.
Checking annotates a tree: every expression with its type, accesses and declarations with
the variable they mean, calls and methods with the function.  An annotation that has not
been made is absent.  Accesses and calls come with a receiver or without one, and these
are different nodes here, though both bear one name in documents and messages.

A tree that was put together by hand may hold anything where a node is expected: nothing, a
node that belongs elsewhere, or nothing where a list of nodes is expected.  Such a place is
a hole.  So that lists stay lists, the one that is missing is a list of a single hole.
-/
import Parlance.Binding
import Parlance.Syntax.Sketch

namespace Parlance

/-- What stands in a place without a node that belongs there. -/
inductive Hole where
  /-- Something else, of which nothing is asked. -/
  | stray (sketch : Sketch)
  /-- Nothing, instead of a list. It is the only item of the list that it stands for. -/
  | unlisted
deriving Inhabited

/-- An expression. -/
inductive Expr where
  | literal (value : Value) (type : Option Ty)
  | group (inner : Expr) (type : Option Ty)
  | binary (operator : Name) (left right : Expr) (type : Option Ty)
  | access (name : Name) (bound : Option Variable) (type : Option Ty)
  | member (receiver : Expr) (name : Name) (bound : Option Variable) (type : Option Ty)
  | call (name : Name) (arguments : List Expr) (bound : Option Function) (type : Option Ty)
  | memberCall (receiver : Expr) (name : Name) (arguments : List Expr)
      (bound : Option Function) (type : Option Ty)
  | hole (hole : Hole)
deriving Inhabited

/-- A statement. -/
inductive Stmt where
  | expression (inner : Expr)
  | declaration (name : Name) (typeName : Option Text) (value : Option Expr)
      (bound : Option Variable)
  | assignment (target value : Expr)
  | conditional (condition : Expr) (thenBody elseBody : List Stmt)
  | forEach (name : Name) (value : Expr) (body : List Stmt)
  | whileLoop (condition : Expr) (body : List Stmt)
  | returning (value : Expr)
  | hole (hole : Hole)
deriving Inhabited

/-- A field of a source. -/
structure Field where
  name : Name
  typeName : Option Text
  value : Option Expr
  bound : Option Variable
deriving Inhabited

/-- A method of a source. -/
structure Method where
  name : Name
  parameters : List Name
  parameterTypeNames : List Name
  returnTypeName : Option Text
  body : List Stmt
  bound : Option Function
deriving Inhabited

/-- What stands in a place for a field. -/
inductive FieldPlace where
  | field (field : Field)
  /-- A declaration, which does what a field does there. -/
  | declaration (field : Field)
  | hole (hole : Hole)
deriving Inhabited

/-- What stands in a place for a method. -/
inductive MethodPlace where
  | method (method : Method)
  /-- A method that has parameters, or none, but no list of their types. -/
  | untyped (method : Method)
  | hole (hole : Hole)
deriving Inhabited

/-- A whole program. -/
structure Source where
  fields : List FieldPlace
  methods : List MethodPlace
deriving Inhabited

/-- The number of parameters a method is declared with. -/
def Method.arity (m : Method) : Nat :=
  m.parameters.length

/-- The name of what stands there, in messages. -/
def Hole.nodeName : Hole → String
  | stray s => s.formName
  | unlisted => Sketch.absent.formName

/-- What is wrong where a node is needed, given what is wrong with a node that does not belong
there. -/
def Hole.fault (misplaced : String → Fault) : Hole → Fault
  | stray s => misplaced s.formName
  | unlisted => .limit .missingPart

/-- What is wrong where the parameters of a method are needed: a node of another form has none,
and a method among the holes has no list of them. -/
def Hole.methodFault : Hole → Fault
  | stray (.node .method _) | unlisted => .limit .missingPart
  | stray _ => .limit .strayNode

namespace Expr

/-- The name of a node in documents and messages. -/
def nodeName : Expr → String
  | literal .. => Form.literal.name
  | group .. => Form.group.name
  | binary .. => Form.binary.name
  | access .. | member .. => Form.access.name
  | call .. | memberCall .. => Form.call.name
  | hole h => h.nodeName

/-- The type annotation. -/
def type? : Expr → Option Ty
  | literal _ t | group _ t | binary _ _ _ t | access _ _ t | member _ _ _ t | call _ _ _ t
  | memberCall _ _ _ _ t => t
  | hole _ => none

end Expr

namespace Stmt

/-- The name of a node in documents and messages. -/
def nodeName : Stmt → String
  | expression _ => Form.expression.name
  | declaration .. => Form.declaration.name
  | assignment .. => Form.assignment.name
  | conditional .. => Form.conditional.name
  | forEach .. => Form.forEach.name
  | whileLoop .. => Form.whileLoop.name
  | returning _ => Form.returning.name
  | hole h => h.nodeName

end Stmt

/-- The name of a node in documents and messages. -/
def FieldPlace.nodeName : FieldPlace → String
  | field _ => Form.field.name
  | declaration _ => Form.declaration.name
  | hole h => h.nodeName

/-- The name of a node in documents and messages. -/
def MethodPlace.nodeName : MethodPlace → String
  | method _ | untyped _ => Form.method.name
  | hole h => h.nodeName

end Parlance
