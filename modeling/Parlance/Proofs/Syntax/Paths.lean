/-
Places in the text of a method.

A place between the statements of a body is told by the way to it: over the statements before it
in its block, and into the blocks around it.  The variables in scope there are made by nodes on
that way, the parameters, the declarations that are passed over and the loops over integers that
are entered, and one reads both off the text, the nodes and the variables, block by block.

Sibling blocks may well declare variables of the same name at the same depth, which are then
described alike.  The nodes that make them are different ones, and places tell them apart.
-/
import Parlance.Proofs.Syntax.Binders

namespace Parlance

/-- The way to a place in the body of a method. -/
inductive Path where
  /-- The beginning of the body. -/
  | start
  /-- The place after the statement that stands there. -/
  | next (p : Path)
  /-- The beginning of the first branch of the conditional that stands there. -/
  | inThen (p : Path)
  /-- The beginning of its second branch. -/
  | inElse (p : Path)
  /-- The beginning of the body of the loop over integers that stands there. -/
  | inFor (p : Path)
  /-- The beginning of the body of the conditional loop that stands there. -/
  | inWhile (p : Path)
deriving DecidableEq, Repr

namespace Path

/-- The statements from a place to the end of its block, if there is such a place. -/
def rest? (body : List Stmt) : Path → Option (List Stmt)
  | start => some body
  | next p =>
    match rest? body p with
    | some (_ :: ss) => some ss
    | _ => none
  | inThen p =>
    match rest? body p with
    | some (.conditional _ ss _ :: _) => some ss
    | _ => none
  | inElse p =>
    match rest? body p with
    | some (.conditional _ _ ss :: _) => some ss
    | _ => none
  | inFor p =>
    match rest? body p with
    | some (.forEach _ _ ss :: _) => some ss
    | _ => none
  | inWhile p =>
    match rest? body p with
    | some (.whileLoop _ ss :: _) => some ss
    | _ => none

/-- The statement at a place. -/
def stmt? (body : List Stmt) (p : Path) : Option Stmt :=
  (p.rest? body).bind List.head?

variable {body ss : List Stmt} {p : Path}

theorem stmt?_of_rest? {s : Stmt} (h : p.rest? body = some (s :: ss)) :
    p.stmt? body = some s := by
  rw [stmt?, h]
  rfl

theorem rest?_next :
    (next p).rest? body = some ss ↔ ∃ s, p.rest? body = some (s :: ss) := by
  rw [rest?]
  split <;> simp_all

theorem rest?_inThen :
    (inThen p).rest? body = some ss ↔
      ∃ e ss' after, p.rest? body = some (.conditional e ss ss' :: after) := by
  rw [rest?]
  split <;> simp_all

theorem rest?_inElse :
    (inElse p).rest? body = some ss ↔
      ∃ e ss' after, p.rest? body = some (.conditional e ss' ss :: after) := by
  rw [rest?]
  split <;> simp_all

theorem rest?_inFor :
    (inFor p).rest? body = some ss ↔
      ∃ name e after, p.rest? body = some (.forEach name e ss :: after) := by
  rw [rest?]
  split <;> simp_all

theorem rest?_inWhile :
    (inWhile p).rest? body = some ss ↔
      ∃ e after, p.rest? body = some (.whileLoop e ss :: after) := by
  rw [rest?]
  split <;> simp_all

end Path

/-! ### Scopes -/

/-- A node of a method that makes a variable. -/
inductive Maker where
  /-- The parameter of that number. -/
  | parameter (i : Nat)
  /-- The declaration, or the loop over integers, that stands at a place. -/
  | stmt (p : Path)
deriving DecidableEq, Repr

/-- The nodes that make the variables with which a block is entered. -/
def Path.opens : Path → List Maker
  | inFor p => [.stmt p]
  | _ => []

namespace Method

/-- The parameters of a method as nodes. -/
def parameterMakers (m : Method) : List Maker :=
  (List.range m.parameters.length).map .parameter

/-- The nodes that make the variables in scope at a place, the innermost block first. -/
def makers (m : Method) : Path → List (List Maker)
  | .start => [m.parameterMakers]
  | .next p =>
    grow (((p.stmt? m.body).bind Stmt.declares?).map fun _ => .stmt p) (makers m p)
  | .inFor p => [.stmt p] :: makers m p
  | .inThen p | .inElse p | .inWhile p => [] :: makers m p

/-- The variables in scope at a place, the innermost block first. -/
def blocks (m : Method) : Path → Blocks
  | .start => [m.parameterVariables]
  | .next p => grow ((p.stmt? m.body).bind Stmt.declared?) (blocks m p)
  | .inFor p =>
    match p.stmt? m.body with
    | some (.forEach name _ _) => [(blocks m p).item name] :: blocks m p
    | _ => [] :: blocks m p
  | .inThen p | .inElse p | .inWhile p => [] :: blocks m p

end Method

/-- The variable that a node of the method makes, as the check describes it. -/
def Maker.made? (m : Method) : Maker → Option Variable
  | parameter i => m.parameterVariables[i]?
  | stmt p =>
    match p.stmt? m.body with
    | some (.declaration _ _ _ bound) => bound
    | some (.forEach name _ _) => some ((m.blocks p).item name)
    | _ => none

end Parlance
