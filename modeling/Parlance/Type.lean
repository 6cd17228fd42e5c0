/-
Types and assignability.

A type is its name: two types are the same when their names are, whatever else differs.
Beside the name a type has the name it bears in emitted code and a table of members.
Tables live in the store and are known here by their number.

There are nine built-in types.  `Any` takes every value, `Comparable` the values of the
four ordered types, and any other type only its own.
-/
import Parlance.Text.Basic

namespace Parlance

/-- The number of a table of bindings in the store. -/
abbrev TableId := Nat

/-- A type: its name, its name in emitted code, and its members. -/
structure Ty where
  name : Text
  targetName : Text
  members : TableId
deriving DecidableEq, Repr, Inhabited

/-- The built-in types. -/
inductive Builtin where
  | any
  | nil
  | integerIterable
  | comparable
  | boolean
  | integer
  | decimal
  | character
  | string
deriving DecidableEq, Repr, Inhabited

namespace Builtin

/-- All of them, in the order a registry lists them. -/
def all : List Builtin :=
  [any, nil, integerIterable, comparable, boolean, integer, decimal, character, string]

/-- The name of a built-in type. -/
def name : Builtin → Text
  | any => "Any"
  | nil => "Nil"
  | integerIterable => "IntegerIterable"
  | comparable => "Comparable"
  | boolean => "Boolean"
  | integer => "Integer"
  | decimal => "Decimal"
  | character => "Character"
  | string => "String"

/-- The name of a built-in type in emitted code. -/
def targetName : Builtin → Text
  | any => "Object"
  | nil => "Void"
  | integerIterable => "Iterable<Integer>"
  | comparable => "Comparable"
  | boolean => "boolean"
  | integer => "int"
  | decimal => "double"
  | character => "char"
  | string => "String"

/-- The place of a built-in type in the list of all. -/
def index : Builtin → Nat
  | any => 0
  | nil => 1
  | integerIterable => 2
  | comparable => 3
  | boolean => 4
  | integer => 5
  | decimal => 6
  | character => 7
  | string => 8

theorem mem_all (b : Builtin) : b ∈ all := by
  cases b <;> decide

theorem name_injective {a b : Builtin} (h : a.name = b.name) : a = b := by
  cases a <;> cases b <;> simp_all [name]

/-- The type itself, as it is known outside every registry: its members are the reserved
table of its index, to which nothing is ever added. -/
def type (b : Builtin) : Ty :=
  ⟨b.name, b.targetName, b.index⟩

/-- The built-in type of a name. -/
def ofName? (name : Text) : Option Builtin :=
  all.find? fun b => b.name == name

end Builtin

namespace Ty

/-- The same type: the same name. -/
def same (a b : Ty) : Bool :=
  a.name == b.name

/-- Whether a type is the built-in `b`. -/
def is (t : Ty) (b : Builtin) : Bool :=
  t.name == b.name

/-- The names of the ordered types. -/
def orderedNames : List Text :=
  [Builtin.integer.name, Builtin.decimal.name, Builtin.character.name, Builtin.string.name]

/-- Whether a value of type `source` may stand where one of type `target` is expected. -/
def accepts (target source : Ty) : Bool :=
  target.name == source.name || target.is .any
    || (target.is .comparable && orderedNames.contains source.name)

end Ty

end Parlance
