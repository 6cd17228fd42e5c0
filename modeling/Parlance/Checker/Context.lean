/-
Where a check takes place.

Checking an expression only reads: the tables and registries of the store, the scope of
the pass, the blocks of the method around the place, and the result type of that method.
Blocks hold the variables declared in them so far.  A name means the nearest variable,
first in the blocks from the innermost outwards, then in the scope of the pass.
-/
import Parlance.Store.Registry
import Parlance.Operator.Typing

namespace Parlance

/-- The variables of the blocks around a place, the innermost block first. -/
abbrev Blocks := List (List Variable)

/-- The nearest variable of a name in the blocks. -/
def Blocks.find? (blocks : Blocks) (name : Name) : Option Variable :=
  blocks.findSome? fun block => block.find? fun v => v.name == name

/-- The blocks with a variable added to the innermost one. -/
def Blocks.add (v : Variable) : Blocks → Blocks
  | [] => []
  | block :: outer => (block ++ [v]) :: outer

/-- Where a check takes place. -/
structure Context where
  store : Store
  pass : Pass
  blocks : Blocks
  /-- The result type of the method around the place, if there is a method. -/
  returns? : Option Ty

namespace Context

/-- The same place inside one more block. -/
def enter (c : Context) (block : List Variable) : Context :=
  { c with blocks := block :: c.blocks }

/-- The same place after a declaration in its innermost block. -/
def extend (c : Context) (declared : Option Variable) : Context :=
  match declared with
  | none => c
  | some v => { c with blocks := c.blocks.add v }

/-- The type of a name. -/
def type (c : Context) (name : Text) : Except Fault Ty :=
  (c.store.type c.pass.registry name).mapError .binding

/-- The type of a name that may be missing; no type is known without one. -/
def type? (c : Context) : Name → Except Fault Ty
  | some name => c.type name
  | none => .error (.binding (.unknownType none))

/-- The variable a name means. -/
def variableOf (c : Context) (name : Name) : Except Fault Variable :=
  match c.blocks.find? name with
  | some v => .ok v
  | none =>
    match c.store.scopeVariable c.pass.scope name with
    | .ok s => .ok s.var
    | .error f => .error (.binding f)

/-- The function that a name and a number of arguments mean. -/
def functionOf (c : Context) (name : Name) (count : Nat) : Except Fault Function :=
  match c.store.scopeFunction c.pass.scope name count with
  | .ok r => .ok r.function
  | .error f => .error (.binding f)

/-- The member variable that a name means on a value of some type. -/
def memberOf (c : Context) (owner : Ty) (name : Name) : Except Fault Variable :=
  match c.store.memberVariable (c.store.membersOfType c.pass.registry owner) name with
  | .ok s => .ok s.var
  | .error f => .error (.binding f)

/-- The member function that a name and a number of arguments, the receiver one of them, mean on
a value of some type. -/
def memberFunctionOf (c : Context) (owner : Ty) (name : Name) (count : Nat) :
    Except Fault Function :=
  match c.store.memberFunction (c.store.membersOfType c.pass.registry owner) name count with
  | .ok r => .ok r.function
  | .error f => .error (.binding f)

/-- The variable that a declaration makes at a place, unless its name is already taken in the
innermost block, or in the scope's own table outside of all blocks. -/
def declare (c : Context) (name : Name) (type : Option Ty) : Except Fault Variable :=
  match c.blocks with
  | [] =>
    match (c.store.table c.pass.scope.top).slot? name with
    | some _ => .error (.binding (.duplicateName name))
    | none => .ok ⟨name, name, type, .table c.pass.scope.top⟩
  | block :: outer =>
    if block.any fun v => v.name == name then .error (.binding (.duplicateName name))
    else .ok ⟨name, name, type, .block outer.length⟩

end Context

end Parlance
