/-
Frames that hold what the blocks of a place declare.

While a method runs there is a frame for each block that the check went into to reach the
place, and in it one variable for each that the check had declared there, in the same
order.  So a name finds its variable in the frames where it finds it in the blocks, and what
is found is of the declared type.

Entering a block, declaring and assigning each keep this, and leaving a block drops the
frame that entering it has added.  What it is for a value to be of a type is left open.
-/
import Parlance.Evaluator.Locals
import Parlance.Checker.Source
import Parlance.Proofs.Basic
import Parlance.Proofs.Kinds.Holds

namespace Parlance

variable {P : Option Ty → Value → Prop}

/-! ### One frame -/

/-- A variable of a frame is that of a block: it bears the name and holds a value of the type. -/
structure Variable.Holds (P : Option Ty → Value → Prop) (v : Variable) (bound : Name × Value) :
    Prop where
  name : bound.1 = v.name
  value : P v.type bound.2

/-- A frame fits a block when they have the same variables in the same order. -/
def Frame.Fits (P : Option Ty → Value → Prop) (block : List Variable) (frame : Frame) : Prop :=
  List.Forall₂ (Variable.Holds P) block frame

namespace Frame.Fits

variable {block : List Variable} {frame : Frame}

/-- A name finds its variable in the frame when it finds it in the block. -/
theorem find? (h : Frame.Fits P block frame) (name : Name) :
    (block.find? fun v => v.name == name).Rel (fun v x => P v.type x)
      (frame.get? name) := by
  induction h with
  | nil => exact .none
  | @cons v b block frame hv _ ih =>
    obtain ⟨n, x⟩ := b
    have hn : n = v.name := hv.name
    by_cases he : v.name = name
    · rw [List.find?_cons_of_pos (by simpa using he), Frame.get?, if_pos (hn.trans he)]
      exact .some hv.value
    · rw [List.find?_cons_of_neg (by simpa using he), Frame.get?, if_neg (hn ▸ he)]
      exact ih

theorem set (h : Frame.Fits P block frame) {name : Name} {v : Variable} {x : Value}
    (hv : block.find? (fun v => v.name == name) = some v) (hx : P v.type x) :
    Frame.Fits P block (frame.set name x) := by
  induction h with
  | nil => cases hv
  | @cons w b block frame hw hrest ih =>
    obtain ⟨n, y⟩ := b
    have hn : n = w.name := hw.name
    by_cases he : w.name = name
    · rw [List.find?_cons_of_pos (by simpa using he)] at hv
      cases hv
      rw [Frame.set, if_pos (hn.trans he)]
      exact .cons ⟨hn, hx⟩ hrest
    · rw [List.find?_cons_of_neg (by simpa using he)] at hv
      rw [Frame.set, if_neg (hn ▸ he)]
      exact .cons hw (ih hv)

/-- A name that is free in the block can be declared in the frame. -/
theorem declare (h : Frame.Fits P block frame) {v : Variable} {x : Value}
    (hv : (block.any fun w => w.name == v.name) = false) (hx : P v.type x) :
    ∃ frame', Frame.declare frame v.name x = .ok frame' ∧
      Frame.Fits P (block ++ [v]) frame' := by
  have hnone : block.find? (fun w => w.name == v.name) = none := by
    simpa [List.find?_eq_none] using hv
  have hget : frame.get? v.name = none := none_of_rel (h.find? v.name) hnone
  refine ⟨frame ++ [(v.name, x)], ?_, List.rel_append h (.cons ⟨rfl, hx⟩ .nil)⟩
  rw [Frame.declare, hget]

/-- The arguments of a call fill the block of the parameters. -/
theorem declareAll {names : List Name} {types : List Ty} {arguments : List Value}
    {block' : List Variable} (h : Frame.Fits P block frame)
    (hl : names.length = types.length)
    (hb : parameterBlock (names.zip types) block = .ok block')
    (hx : List.Forall₂ (fun t x => P (some t) x) types arguments) :
    ∃ frame', Frame.declareAll frame (names.zip arguments) = .ok frame' ∧
      Frame.Fits P block' frame' := by
  induction names generalizing types arguments block frame with
  | nil =>
    cases hx with
    | nil =>
      cases hb
      exact ⟨frame, rfl, h⟩
    | cons _ _ => simp at hl
  | cons name names ih =>
    cases hx with
    | nil => simp at hl
    | @cons t x types arguments hx hxs =>
      rw [List.zip_cons_cons, parameterBlock] at hb
      cases hany : block.any fun v => v.name == name with
      | true =>
        rw [hany] at hb
        cases hb
      | false =>
        rw [hany] at hb
        obtain ⟨frame', hd, hf⟩ := h.declare (v := ⟨name, name, some t, .block 0⟩) hany hx
        obtain ⟨frame'', hd', hf'⟩ := ih hf (by simpa using hl) hb hxs
        refine ⟨frame'', ?_, hf'⟩
        rw [List.zip_cons_cons, Frame.declareAll, hd]
        exact hd'

end Frame.Fits

/-! ### All frames -/

/-- The frames fit the blocks, the innermost first. -/
def Locals.Fit (P : Option Ty → Value → Prop) (blocks : Blocks) (locals : Locals) : Prop :=
  List.Forall₂ (Frame.Fits P) blocks locals

namespace Locals.Fit

variable {blocks : Blocks} {locals : Locals}

/-- A name finds its variable in the frames when it finds it in the blocks. -/
theorem find? (h : Locals.Fit P blocks locals) (name : Name) :
    (blocks.find? name).Rel (fun v x => P v.type x) (locals.get? name) := by
  induction h with
  | nil => exact .none
  | @cons block frame blocks locals hf _ ih =>
    rw [Blocks.find?, List.findSome?_cons, Locals.get?]
    cases hv : block.find? fun v => v.name == name with
    | some v =>
      obtain ⟨x, hx, hh⟩ := exists_of_rel (hf.find? name) hv
      rw [hx]
      exact .some hh
    | none =>
      rw [none_of_rel (hf.find? name) hv]
      exact ih

theorem set (h : Locals.Fit P blocks locals) {name : Name} {v : Variable} {x : Value}
    (hv : blocks.find? name = some v) (hx : P v.type x) :
    Locals.Fit P blocks (locals.set name x) := by
  induction h with
  | nil => cases hv
  | @cons block frame blocks locals hf hrest ih =>
    rw [Blocks.find?, List.findSome?_cons] at hv
    rw [Locals.set]
    cases hw : block.find? fun v => v.name == name with
    | some w =>
      obtain ⟨y, hy, -⟩ := exists_of_rel (hf.find? name) hw
      rw [hw] at hv
      cases hv
      rw [hy]
      exact .cons (hf.set hw hx) hrest
    | none =>
      rw [hw] at hv
      rw [none_of_rel (hf.find? name) hw]
      exact .cons hf (ih hv)

theorem tail (h : Locals.Fit P blocks locals) : Locals.Fit P blocks.tail locals.tail := by
  cases h with
  | nil => exact .nil
  | cons _ h => exact h

end Locals.Fit

end Parlance
