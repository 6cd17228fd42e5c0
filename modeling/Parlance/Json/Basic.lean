/-
JSON values.

Integers are unbounded and apart from the numbers written with a point or a power of ten.
An object is the list of its entries; the reader leaves at most one entry to a key.
-/
import Parlance.Number.Binary64
import Parlance.Text.Basic

namespace Parlance

open Parlance.Number (Binary64)

/-- A JSON value. -/
inductive Json where
  | null
  | bool (value : Bool)
  | integer (value : Int)
  | number (value : Binary64)
  | string (value : Text)
  | array (items : List Json)
  | object (entries : List (Text × Json))
deriving Inhabited

namespace Json

/-- What stands under a key. -/
def get? (key : Text) : List (Text × Json) → Option Json
  | [] => none
  | (k, v) :: rest => if k = key then some v else get? key rest

/-- The entries with one more; a key that is there already keeps its place and takes the new
value. -/
def insert (key : Text) (value : Json) : List (Text × Json) → List (Text × Json)
  | [] => [(key, value)]
  | (k, v) :: rest => if k = key then (k, value) :: rest else (k, v) :: insert key value rest

theorem sizeOf_lt_of_get? {key : Text} {entries : List (Text × Json)} {v : Json}
    (h : get? key entries = some v) : sizeOf v < sizeOf (Json.object entries) := by
  have inner : ∀ es : List (Text × Json), get? key es = some v → sizeOf v < sizeOf es := by
    intro es
    induction es with
    | nil => intro h; simp [get?] at h
    | cons e rest ih =>
      obtain ⟨k, w⟩ := e
      intro h
      rw [get?] at h
      split at h
      · cases h
        simp only [List.cons.sizeOf_spec, Prod.mk.sizeOf_spec]
        omega
      · have := ih h
        simp only [List.cons.sizeOf_spec]
        omega
  have := inner entries h
  simp only [Json.object.sizeOf_spec]
  omega

theorem sizeOf_lt_of_mem {items : List Json} {v : Json} (h : v ∈ items) :
    sizeOf v < sizeOf (Json.array items) := by
  have := List.sizeOf_lt_of_mem h
  simp only [Json.array.sizeOf_spec]
  omega

/-- The name of the kind of a value, as messages give it. -/
def kindName : Json → String
  | .null => "NoneType"
  | .bool _ => "bool"
  | .integer _ => "int"
  | .number _ => "float"
  | .string _ => "str"
  | .array _ => "list"
  | .object _ => "dict"

end Json

end Parlance
