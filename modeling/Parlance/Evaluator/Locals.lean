/-
The variables of a running method.

Every block that is being executed has a frame: the block of the parameters first, then
each branch, iteration or loop body inside it.  A frame is made when its block is entered
and dropped when it is left, and nothing outside the method can reach it, so frames need
no place in the store.
-/
import Parlance.Value

namespace Parlance

/-- The variables of one block, in the order they were declared. -/
abbrev Frame := List (Name × Value)

/-- The value of a variable. -/
def Frame.get? (frame : Frame) (name : Name) : Option Value :=
  match frame with
  | [] => none
  | (n, v) :: rest => if n = name then some v else get? rest name

/-- The frame with another value for a variable. -/
def Frame.set (frame : Frame) (name : Name) (value : Value) : Frame :=
  match frame with
  | [] => []
  | (n, v) :: rest => if n = name then (n, value) :: rest else (n, v) :: set rest name value

namespace Frame

@[simp] theorem get?_set_self (frame : Frame) (name : Name) (v : Value) :
    get? (set frame name v) name = (get? frame name).map fun _ => v := by
  induction frame with
  | nil => rfl
  | cons b rest ih =>
    obtain ⟨n, w⟩ := b
    by_cases h : n = name <;> simp [set, get?, h, ih]

theorem get?_set_of_ne (frame : Frame) {name other : Name} (v : Value) (h : other ≠ name) :
    get? (set frame name v) other = get? frame other := by
  induction frame with
  | nil => rfl
  | cons b rest ih =>
    obtain ⟨n, w⟩ := b
    by_cases hn : n = name
    · subst hn
      simp [set, get?, Ne.symm h]
    · simp [set, get?, hn, ih]

/-- Setting a variable leaves the names of a frame, and their order, as they are. -/
@[simp] theorem names_set (frame : Frame) (name : Name) (v : Value) :
    (set frame name v).map Prod.fst = frame.map Prod.fst := by
  induction frame with
  | nil => rfl
  | cons b rest ih =>
    obtain ⟨n, w⟩ := b
    by_cases h : n = name <;> simp [set, h, ih]

theorem get?_append (frame more : Frame) (name : Name) :
    get? (frame ++ more) name = (get? frame name).or (get? more name) := by
  induction frame with
  | nil => simp [get?]
  | cons b rest ih =>
    obtain ⟨n, w⟩ := b
    by_cases h : n = name <;> simp [get?, h, ih]

end Frame

/-- The frames of the blocks being executed, the innermost first. -/
abbrev Locals := List Frame

/-- The value of the nearest variable of a name. -/
def Locals.get? (locals : Locals) (name : Name) : Option Value :=
  match locals with
  | [] => none
  | frame :: outer =>
    match Frame.get? frame name with
    | some v => some v
    | none => get? outer name

/-- The frames with another value for the nearest variable of a name. -/
def Locals.set (locals : Locals) (name : Name) (value : Value) : Locals :=
  match locals with
  | [] => []
  | frame :: outer =>
    match Frame.get? frame name with
    | some _ => Frame.set frame name value :: outer
    | none => frame :: set outer name value

namespace Locals

@[simp] theorem get?_set_self (locals : Locals) (name : Name) (v : Value) :
    get? (set locals name v) name = (get? locals name).map fun _ => v := by
  induction locals with
  | nil => rfl
  | cons frame outer ih =>
    cases h : Frame.get? frame name <;> simp [set, get?, h, ih]

theorem get?_set_of_ne (locals : Locals) {name other : Name} (v : Value) (h : other ≠ name) :
    get? (set locals name v) other = get? locals other := by
  induction locals with
  | nil => rfl
  | cons frame outer ih =>
    cases hf : Frame.get? frame name <;> simp [set, get?, hf, ih, Frame.get?_set_of_ne _ _ h]

/-- Setting a variable leaves the names of all frames as they are. -/
@[simp] theorem names_set (locals : Locals) (name : Name) (v : Value) :
    (set locals name v).map (·.map Prod.fst) = locals.map (·.map Prod.fst) := by
  induction locals with
  | nil => rfl
  | cons frame outer ih =>
    cases hf : Frame.get? frame name <;> simp [set, hf, ih]

end Locals

/-- The frame with one more variable, unless it holds the name already. -/
def Frame.declare (frame : Frame) (name : Name) (value : Value) :
    Except BindingFault Frame :=
  match Frame.get? frame name with
  | some _ => .error (.duplicateName name)
  | none => .ok (frame ++ [(name, value)])

/-- The frame with more variables, up to the first name that it holds already. -/
def Frame.declareAll (frame : Frame) : List (Name × Value) → Except BindingFault Frame
  | [] => .ok frame
  | (name, value) :: rest =>
    match Frame.declare frame name value with
    | .error f => .error f
    | .ok frame => declareAll frame rest

end Parlance
