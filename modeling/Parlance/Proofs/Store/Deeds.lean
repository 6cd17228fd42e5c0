/-
What a function of the host refers to.

A deed names tables and gives values.  It is within some tables and a sort of values if it names
no other tables, and answers and sets only values of the sort, as long as all that it finds is of
the sort.  A function of the host is within them if its deeds are, whatever arguments of the sort
it is given.  So it may know tables and objects of its own beside those that it is handed.
-/
import Parlance.Evaluator.Host

namespace Parlance

/-- The deed names only such tables, and values of the sort, if it finds nothing else. -/
def Deed.Within (sort : Value → Prop) (tables : TableId → Prop) : Deed → Prop
  | answer v => sort v
  | fail _ => True
  | look id _ next => tables id ∧ ∀ found, (∀ v ∈ found, sort v) → (next found).Within sort tables
  | set id _ v next => tables id ∧ sort v ∧ next.Within sort tables
  | write _ next => next.Within sort tables

/-- Given arguments of the sort, the function does what is within it. -/
def HostAction.Within (sort : Value → Prop) (tables : TableId → Prop) (action : HostAction) :
    Prop :=
  ∀ vs, (∀ v ∈ vs, sort v) → (action.does vs).Within sort tables

/-- Where nothing is ruled out, every deed is within. -/
theorem Deed.within_of_forall {sort : Value → Prop} {tables : TableId → Prop} (hsort : ∀ v, sort v)
    (htables : ∀ id, tables id) (deed : Deed) : deed.Within sort tables := by
  induction deed with
  | answer v => exact hsort v
  | fail cause => exact trivial
  | look id name next ih => exact ⟨htables id, fun found _ => ih found⟩
  | set id name v next ih => exact ⟨htables id, hsort v, ih⟩
  | write t next ih => exact ih

/-- A deed that is within some tables is within more. -/
theorem Deed.Within.mono {sort : Value → Prop} {tables more : TableId → Prop} {deed : Deed}
    (h : deed.Within sort tables) (hmore : ∀ id, tables id → more id) : deed.Within sort more := by
  induction deed with
  | answer v => exact h
  | fail cause => exact trivial
  | look id name next ih => exact ⟨hmore id h.1, fun found hf => ih found (h.2 found hf)⟩
  | set id name v next ih => exact ⟨hmore id h.1, h.2.1, ih h.2.2⟩
  | write t next ih => exact ih h

end Parlance
