/-
Reading the parts of a node.

A document's node is an object that names its form under `_type`.  The parts are read one
by one, and the first that is missing or of the wrong sort is the fault.  A list that is
missing is empty; null is not a list.  A part that is a document itself is handed on
together with the fact that it is smaller than the node, so that reading can recur.
-/
import Parlance.Json.Shown
import Parlance.Fault

namespace Parlance.Document

/-- Reads a `β`, or finds a fault. -/
abbrev Reading (β : Type) := Except DocumentFault β

/-- A node: the document it is, its form, and its entries. -/
structure Node (d : Json) where
  form : String
  entries : List (Text × Json)
  isObject : d = .object entries

/-- A node of one of the forms that are allowed in its place. -/
def node (allowed : List String) (d : Json) : Reading (Node d) :=
  match d with
  | .object entries =>
    match Json.get? "_type" entries with
    | none => .error (.notNode (Json.object entries).kindName)
    | some (.string tag) =>
      match allowed.find? fun (form : String) => tag == (form : Text) with
      | some form => .ok ⟨form, entries, rfl⟩
      | none => .error (.wrongNode allowed (some tag))
    | some tag => .error (.wrongNode allowed tag.named?)
  | other => .error (.notNode other.kindName)

namespace Node

variable {d : Json} {β : Type}

theorem lt (n : Node d) {key : Text} {v : Json} (h : Json.get? key n.entries = some v) :
    sizeOf v < sizeOf d := by
  rw [n.isObject]
  exact Json.sizeOf_lt_of_get? h

theorem item_lt (n : Node d) {key : Text} {items : List Json}
    (h : Json.get? key n.entries = some (.array items)) {v : Json} (hv : v ∈ items) :
    sizeOf v < sizeOf d :=
  Nat.lt_trans (Json.sizeOf_lt_of_mem hv) (n.lt h)

/-- A part that must be there, read as a document. -/
def part (n : Node d) (key : String) (read : (v : Json) → sizeOf v < sizeOf d → Reading β) :
    Reading β :=
  match h : Json.get? key n.entries with
  | none => .error (.missing n.form key)
  | some v => read v (n.lt h)

/-- A part that may be missing or null, read as a document. -/
def part? (n : Node d) (key : String) (read : (v : Json) → sizeOf v < sizeOf d → Reading β) :
    Reading (Option β) :=
  match h : Json.get? key n.entries with
  | none => .ok none
  | some v => if v matches .null then .ok none else (read v (n.lt h)).map some

/-- Items smaller than some size, read one after the other, up to the first fault. -/
def readAll {size : Nat} (read : (v : Json) → sizeOf v < size → Reading β) :
    (items : List Json) → (∀ v ∈ items, sizeOf v < size) → Reading (List β)
  | [], _ => .ok []
  | v :: rest, small => do
    let b ← read v (small v List.mem_cons_self)
    let bs ← readAll read rest fun w h => small w (List.mem_cons_of_mem v h)
    return b :: bs

/-- A list, whose items are read as documents. -/
def parts (n : Node d) (key : String) (read : (v : Json) → sizeOf v < sizeOf d → Reading β) :
    Reading (List β) :=
  match h : Json.get? key n.entries with
  | none => .ok []
  | some (.array items) => readAll read items fun _ hv => n.item_lt h hv
  | some _ => .error (.notList n.form key)

/-- A text that must be there. -/
def text (n : Node d) (key : String) : Reading Text :=
  match Json.get? key n.entries with
  | none => .error (.missing n.form key)
  | some (.string s) => .ok s
  | some _ => .error (.notString n.form key)

/-- A text that may be missing or null. -/
def text? (n : Node d) (key : String) : Reading (Option Text) :=
  match Json.get? key n.entries with
  | none | some .null => .ok none
  | some (.string s) => .ok (some s)
  | some _ => .error (.notOptionalString n.form key)

/-- The texts that items are, if they all are texts. -/
def allTexts? : List Json → Option (List Text)
  | [] => some []
  | .string s :: rest => (allTexts? rest).map (s :: ·)
  | _ :: _ => none

/-- A list of texts. -/
def texts (n : Node d) (key : String) : Reading (List Text) :=
  match Json.get? key n.entries with
  | none => .ok []
  | some (.array items) =>
    match allTexts? items with
    | some ss => .ok ss
    | none => .error (.notStrings n.form key)
  | some _ => .error (.notList n.form key)

end Node

end Parlance.Document
