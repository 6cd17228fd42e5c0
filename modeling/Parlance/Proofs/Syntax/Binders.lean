/-
The nodes that declare something.

Outside of all methods only fields make variables.  Inside there are three more ways: the
parameters of a method, a declaration, and a loop over integers.  A declaration is annotated
with its variable; what the other two make is known from the method's annotation and from
the place of the loop.
-/
import Parlance.Checker.Context
import Parlance.Syntax.Traversal

namespace Parlance

/-- The field that stands in a place for one. -/
def FieldPlace.field? : FieldPlace → Option Field
  | field f | declaration f => some f
  | hole _ => none

/-- The value that a place for a field begins with. -/
def FieldPlace.initial? (p : FieldPlace) : Option Expr :=
  p.field?.bind Field.value

theorem FieldPlace.walk_of_field? {p : FieldPlace} {f : Field} (h : p.field? = some f) :
    p.walk = .field p :: walkOption f.value := by
  cases p with
  | hole g => cases h
  | _ =>
    cases h
    rfl

/-- The method that stands in a place for one. -/
def MethodPlace.method? : MethodPlace → Option Method
  | method m | untyped m => some m
  | hole _ => none

theorem MethodPlace.walk_of_method? {p : MethodPlace} {m : Method} (h : p.method? = some m) :
    p.walk = .method p :: walkStmts m.body := by
  cases p with
  | hole g => cases h
  | _ =>
    cases h
    rfl

/-- What the method that stands in a place is looked up by. -/
def MethodPlace.key? (p : MethodPlace) : Option (Name × Nat) :=
  p.method?.map fun m => (m.name, m.parameters.length)

/-- The variable that a statement is annotated with, if it is a declaration. -/
def Stmt.declared? : Stmt → Option Variable
  | .declaration _ _ _ bound => bound
  | _ => none

/-- The name that a statement declares, if it is a declaration. -/
def Stmt.declares? : Stmt → Option Name
  | .declaration name _ _ _ => some name
  | _ => none

/-- The variable of a loop over integers, in the block that is entered from these. -/
def Blocks.item (blocks : Blocks) (name : Name) : Variable :=
  ⟨name, name, some Builtin.integer.type, .block blocks.length⟩

/-- The parameters of a method, of the types of the function it is annotated with. -/
def Method.parameterVariables (m : Method) : List Variable :=
  match m.bound with
  | some f => List.zipWith (fun n t => ⟨n, n, t, .block 0⟩) m.parameters f.parameterTypes
  | none => m.parameters.map fun n => ⟨n, n, none, .block 0⟩

/-! ### Blocks that grow

A declaration puts something at the end of the innermost block: a variable, its name, or the node
that makes it. -/

section Grow

variable {α β : Type}

/-- The blocks with an item added to the innermost one, if there is one to be added. -/
def grow : Option α → List (List α) → List (List α)
  | none, blocks => blocks
  | some _, [] => []
  | some a, block :: outer => (block ++ [a]) :: outer

@[simp] theorem grow_none (blocks : List (List α)) : grow none blocks = blocks := by
  cases blocks <;> rfl

@[simp] theorem tail_grow (o : Option α) (blocks : List (List α)) :
    (grow o blocks).tail = blocks.tail := by
  cases o <;> cases blocks <;> rfl

@[simp] theorem length_grow (o : Option α) (blocks : List (List α)) :
    (grow o blocks).length = blocks.length := by
  cases o <;> cases blocks <;> rfl

theorem map_grow (f : α → β) (o : Option α) (blocks : List (List α)) :
    (grow o blocks).map (List.map f) = grow (o.map f) (blocks.map (List.map f)) := by
  cases o <;> cases blocks <;> simp [grow]

theorem Blocks.add_eq (v : Variable) (blocks : Blocks) : blocks.add v = grow (some v) blocks := by
  cases blocks <;> rfl

theorem Context.extend_eq (c : Context) (declared : Option Variable) :
    c.extend declared = { c with blocks := grow declared c.blocks } := by
  cases declared with
  | none => rw [grow_none, Context.extend]
  | some v => rw [← Blocks.add_eq, Context.extend]

end Grow

end Parlance
