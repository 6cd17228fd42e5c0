/-
What a name is bound to.

A binding is described apart from what it holds at the moment: a variable by its names and
its type, a function by its names, its parameter types and its result type.  The host may
leave a type open, be it that of a variable, of a parameter or of a result.  The description
never changes once the binding is made, and it says where the binding lives, which together
with its key is its identity: a table holds one variable to a name and one function to a
name and a number of parameters.
-/
import Parlance.Type
import Parlance.Name

namespace Parlance

/-- Where a variable lives. -/
inductive Home where
  /-- In a table of the store. -/
  | table (id : TableId)
  /-- In a block of a method, blocks being numbered from the outermost, the parameters' one. -/
  | block (depth : Nat)
deriving DecidableEq, Repr, Inhabited

/-- The description of a variable. -/
structure Variable where
  name : Name
  targetName : Name
  type : Option Ty
  home : Home
deriving DecidableEq, Repr, Inhabited

/-- The description of a function. -/
structure Function where
  name : Name
  targetName : Name
  parameterTypes : List (Option Ty)
  returnType : Option Ty
  home : TableId
deriving DecidableEq, Repr, Inhabited

/-- The number of parameters. -/
def Function.arity (f : Function) : Nat :=
  f.parameterTypes.length

end Parlance
