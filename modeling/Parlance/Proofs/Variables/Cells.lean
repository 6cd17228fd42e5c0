/-
Where a name is found among frames.

The values of a running method stand in cells, told by the frame, counted from the innermost, and
the position in it.  A name finds its cell by the names of the variables alone: reading takes the
value from that cell and assigning replaces it there, and in blocks whose variables have the same
names the name finds the variable in the same position.
-/
import Parlance.Proofs.Running.Changes

namespace Parlance

section Items

variable {α β : Type}

/-- The item in a position of a block, the blocks being counted from the innermost. -/
def item? (blocks : List (List α)) (c : Nat × Nat) : Option α :=
  blocks[c.1]?.bind (·[c.2]?)

theorem item?_map (f : α → β) (blocks : List (List α)) (c : Nat × Nat) :
    item? (blocks.map (List.map f)) c = (item? blocks c).map f := by
  unfold item?
  rw [List.getElem?_map]
  cases blocks[c.1]? with
  | none => rfl
  | some block => exact List.getElem?_map

theorem mem_flatten_of_item? {blocks : List (List α)} {c : Nat × Nat} {a : α}
    (h : item? blocks c = some a) : a ∈ blocks.flatten := by
  obtain ⟨block, hblock, ha⟩ := Option.bind_eq_some_iff.mp h
  exact List.mem_flatten.mpr ⟨block, List.mem_of_getElem? hblock, List.mem_of_getElem? ha⟩

/-- The item in a position that is changed. -/
theorem item?_modify_self (blocks : List (List α)) (c : Nat × Nat) (f : α → α) :
    item? (blocks.modify c.1 fun block => block.modify c.2 f) c = (item? blocks c).map f := by
  unfold item?
  rw [List.getElem?_modify]
  cases blocks[c.1]? <;> simp

theorem item?_modify_of_ne (blocks : List (List α)) {c d : Nat × Nat} (hd : d ≠ c) (f : α → α) :
    item? (blocks.modify c.1 fun block => block.modify c.2 f) d = item? blocks d := by
  unfold item?
  rw [List.getElem?_modify]
  by_cases hblock : c.1 = d.1
  · have hplace : c.2 ≠ d.2 := fun h => hd (Prod.ext hblock.symm h.symm)
    cases blocks[d.1]? <;> simp [hblock, hplace]
  · cases blocks[d.1]? <;> simp [hblock]

/-- The position of the nearest of some names, block by block. -/
def nearest? (name : Name) : List (List Name) → Option (Nat × Nat)
  | [] => none
  | names :: outer =>
    match names.findIdx? (· == name) with
    | some j => some (0, j)
    | none => (nearest? name outer).map fun c => (c.1 + 1, c.2)

theorem item?_nearest? {name : Name} {blocks : List (List Name)} {c : Nat × Nat}
    (h : nearest? name blocks = some c) : item? blocks c = some name := by
  induction blocks generalizing c with
  | nil => cases h
  | cons names outer ih =>
    rw [nearest?] at h
    cases hj : names.findIdx? (· == name) with
    | some j =>
      rw [hj] at h
      cases h
      obtain ⟨hlt, heq, -⟩ := List.findIdx?_eq_some_iff_getElem.mp hj
      simpa [item?, hlt] using heq
    | none =>
      rw [hj] at h
      obtain ⟨c', hc, rfl⟩ := Option.map_eq_some_iff.mp h
      simpa [item?] using ih hc

theorem find?_eq_findIdx? (key : α → Name) (xs : List α) (name : Name) :
    xs.find? (fun a => key a == name)
      = ((xs.map key).findIdx? (· == name)).bind fun j => xs[j]? := by
  induction xs with
  | nil => rfl
  | cons a xs ih =>
    rw [List.find?_cons, List.map_cons, List.findIdx?_cons]
    cases h : key a == name with
    | true => simp
    | false =>
      rw [ih]
      cases (xs.map key).findIdx? (· == name) <;> simp

end Items

/-- In blocks a name finds the variable in the position where it is found among the names. -/
theorem Blocks.find?_eq (blocks : Blocks) (name : Name) :
    blocks.find? name
      = (nearest? name (blocks.map (List.map Variable.name))).bind (item? blocks) := by
  induction blocks with
  | nil => rfl
  | cons block outer ih =>
    rw [find?, List.findSome?_cons, find?_eq_findIdx? Variable.name, List.map_cons, nearest?]
    cases hj : (block.map Variable.name).findIdx? (· == name) with
    | some j =>
      have hlt : j < block.length := by
        simpa using (List.findIdx?_eq_some_iff_getElem.mp hj).1
      simp [item?, hlt]
    | none =>
      rw [find?] at ih
      simp only [Option.bind_none, ih]
      cases nearest? name (outer.map (List.map Variable.name)) <;> simp [item?]

namespace Locals

/-- The cell that a name finds. -/
def cell? (locals : Locals) (name : Name) : Option (Nat × Nat) :=
  nearest? name locals.names

theorem cell?_cons (frame : Frame) (outer : Locals) (name : Name) :
    cell? (frame :: outer) name = match (frame.map Prod.fst).findIdx? (· == name) with
      | some j => some (0, j)
      | none => (cell? outer name).map fun c => (c.1 + 1, c.2) :=
  rfl

end Locals

theorem Frame.get?_eq_find? (frame : Frame) (name : Name) :
    frame.get? name = (frame.find? fun b => b.1 == name).map Prod.snd := by
  induction frame with
  | nil => rfl
  | cons b rest ih =>
    obtain ⟨n, v⟩ := b
    by_cases h : n = name
    · rw [get?, if_pos h, List.find?_cons_of_pos (by simpa using h)]
      rfl
    · rw [get?, if_neg h, List.find?_cons_of_neg (by simpa using h), ih]

theorem Frame.get?_eq_findIdx? (frame : Frame) (name : Name) :
    frame.get? name = ((frame.map Prod.fst).findIdx? (· == name)).bind fun j =>
      frame[j]?.map Prod.snd := by
  rw [get?_eq_find?, find?_eq_findIdx? Prod.fst]
  cases (frame.map Prod.fst).findIdx? (· == name) <;> rfl

/-- Assigning in a frame replaces the value in the position that the name finds. -/
theorem Frame.set_eq (frame : Frame) (name : Name) (v : Value) :
    frame.set name v = match (frame.map Prod.fst).findIdx? (· == name) with
      | some j => frame.modify j fun b => (b.1, v)
      | none => frame := by
  induction frame with
  | nil => rfl
  | cons b rest ih =>
    obtain ⟨n, w⟩ := b
    rw [List.map_cons, List.findIdx?_cons]
    by_cases h : n = name
    · simp [set, h]
    · have hne : (n == name) = false := by simpa using h
      rw [set, if_neg h, ih, hne]
      cases (rest.map Prod.fst).findIdx? (· == name) <;> simp

namespace Locals

/-- **Reading a variable takes the value from its cell.** -/
theorem get?_eq (locals : Locals) (name : Name) :
    locals.get? name = (locals.cell? name).bind fun c => (item? locals c).map Prod.snd := by
  induction locals with
  | nil => rfl
  | cons frame outer ih =>
    rw [get?, Frame.get?_eq_findIdx?, cell?_cons]
    cases hj : (frame.map Prod.fst).findIdx? (· == name) with
    | some j =>
      have hlt : j < frame.length := by
        simpa using (List.findIdx?_eq_some_iff_getElem.mp hj).1
      simp [item?, hlt]
    | none =>
      simp only [Option.bind_none, ih]
      cases cell? outer name <;> simp [item?]

/-- **Assigning a variable replaces the value in its cell**, and nothing else. -/
theorem set_eq (locals : Locals) (name : Name) (v : Value) :
    locals.set name v = match locals.cell? name with
      | some c => locals.modify c.1 fun frame => frame.modify c.2 fun b => (b.1, v)
      | none => locals := by
  induction locals with
  | nil => rfl
  | cons frame outer ih =>
    rw [set, Frame.get?_eq_findIdx?, Frame.set_eq, cell?_cons]
    cases hj : (frame.map Prod.fst).findIdx? (· == name) with
    | some j =>
      have hlt : j < frame.length := by
        simpa using (List.findIdx?_eq_some_iff_getElem.mp hj).1
      simp [hlt]
    | none =>
      simp only [Option.bind_none, ih]
      cases cell? outer name <;> simp

variable {blocks : Blocks} {locals : Locals} {name : Name}

/-- In frames with the names of the blocks, a name finds the cell where it finds the variable. -/
theorem exists_cell (hn : locals.names = blocks.map (List.map Variable.name)) {v : Variable}
    (hv : blocks.find? name = some v) :
    ∃ c, locals.cell? name = some c ∧ item? blocks c = some v := by
  rw [Blocks.find?_eq, ← hn] at hv
  exact Option.bind_eq_some_iff.mp hv

theorem cell?_eq_none (hn : locals.names = blocks.map (List.map Variable.name))
    (hv : blocks.find? name = none) : locals.cell? name = none := by
  cases hc : locals.cell? name with
  | none => rfl
  | some c =>
    have hname : item? (blocks.map (List.map Variable.name)) c = some name :=
      hn ▸ item?_nearest? hc
    rw [item?_map] at hname
    obtain ⟨v, hitem, -⟩ := Option.map_eq_some_iff.mp hname
    rw [Blocks.find?_eq, ← hn, show nearest? name locals.names = some c from hc,
      Option.bind_some, hitem] at hv
    cases hv

end Locals

end Parlance
