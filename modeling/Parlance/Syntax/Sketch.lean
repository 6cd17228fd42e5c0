/-
Sketches.

A sketch is a tree before anything is asked of it: nodes of some form, and in their parts
whatever was put there, or nothing.  It is what a tree put together by hand comes from, and
what such a tree keeps where a node stands in a place that no node of its form belongs in.

The parts that each form of node has are listed once, in the order in which they are
written.  There are two forms besides those of the language, an expression and a statement
of which nothing is known but that they are one.
-/
import Parlance.Value
import Parlance.Name

namespace Parlance

/-- The form of a node. -/
inductive Form where
  | anyExpression
  | literal
  | group
  | binary
  | access
  | call
  | anyStatement
  | expression
  | declaration
  | assignment
  | conditional
  | forEach
  | whileLoop
  | returning
  | field
  | method
  | source
deriving DecidableEq, Repr, Inhabited

/-- What belongs in a part of a node. -/
inductive Role where
  /-- A value. -/
  | value
  /-- A name or another text, or nothing. -/
  | text
  /-- A list of texts. -/
  | texts
  /-- A node. -/
  | node
  /-- A node, or nothing. -/
  | optional
  /-- A list of nodes. -/
  | nodes
  /-- What a check finds out. -/
  | finding
deriving DecidableEq, Repr, Inhabited

namespace Form

/-- All forms. -/
def all : List Form :=
  [anyExpression, literal, group, binary, access, call, anyStatement, expression, declaration,
   assignment, conditional, forEach, whileLoop, returning, field, method, source]

theorem mem_all (f : Form) : f ∈ all := by
  cases f <;> decide

/-- The name of a form in documents and messages. -/
def name : Form → String
  | anyExpression => "Expr"
  | literal => "Literal"
  | group => "Group"
  | binary => "Binary"
  | access => "Access"
  | call => "Call"
  | anyStatement => "Stmt"
  | expression => "ExpressionStmt"
  | declaration => "Declaration"
  | assignment => "Assignment"
  | conditional => "If"
  | forEach => "For"
  | whileLoop => "While"
  | returning => "Return"
  | field => "Field"
  | method => "Method"
  | source => "Source"

/-- The form of a name. -/
def ofName? (name : String) : Option Form :=
  all.find? fun f => f.name == name

/-- The parts of a node, in the order in which they are written. -/
def parts : Form → List (String × Role)
  | anyExpression => [("type", .finding)]
  | literal => [("value", .value), ("type", .finding)]
  | group => [("expression", .node), ("type", .finding)]
  | binary => [("operator", .text), ("left", .node), ("right", .node), ("type", .finding)]
  | access =>
    [("receiver", .optional), ("name", .text), ("variable", .finding), ("type", .finding)]
  | call =>
    [("receiver", .optional), ("name", .text), ("arguments", .nodes), ("function", .finding),
     ("type", .finding)]
  | anyStatement => []
  | expression => [("expression", .node)]
  | declaration | field =>
    [("name", .text), ("type_name", .text), ("value", .optional), ("variable", .finding)]
  | assignment => [("receiver", .node), ("value", .node)]
  | conditional => [("condition", .node), ("then_statements", .nodes), ("else_statements", .nodes)]
  | forEach => [("name", .text), ("value", .node), ("statements", .nodes)]
  | whileLoop => [("condition", .node), ("statements", .nodes)]
  | returning => [("value", .node)]
  | method =>
    [("name", .text), ("parameters", .texts), ("parameter_type_names", .texts),
     ("return_type_name", .text), ("statements", .nodes), ("function", .finding)]
  | source => [("fields", .nodes), ("methods", .nodes)]

/-- Whether nothing is known of a node but that it is an expression or a statement. -/
def isBare : Form → Bool
  | anyExpression | anyStatement => true
  | _ => false

end Form

/-- A tree of which nothing is asked. A node has as many parts as its form lists. -/
inductive Sketch where
  /-- Nothing. -/
  | absent
  | value (value : Value)
  | text (text : Text)
  | list (items : List Sketch)
  | node (form : Form) (parts : List Sketch)
deriving Inhabited

namespace Sketch

/-- The name of a node's form in messages. What is no node is nothing. -/
def formName : Sketch → String
  | node f _ => f.name
  | _ => "NoneType"

/-- The text that a part is, or none. -/
def text? : Sketch → Option Text
  | text t => some t
  | _ => none

/-- What stands in a part of a node, if the form of the node has such a part. -/
def part? (key : String) : Sketch → Option Sketch
  | node f parts => ((f.parts.map Prod.fst).zip parts).lookup key
  | _ => none

/-- The name of a node, which may be missing, if nodes of its form have names. -/
def name? (s : Sketch) : Option Name :=
  (s.part? "name").map text?

end Sketch

end Parlance
