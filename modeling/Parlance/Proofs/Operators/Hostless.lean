/-
Values that no host has made.

Objects are made by hosts.  No operator answers one, and no literal that passes the check is one, so
a program comes by an object only where its host gives it one.
-/
import Parlance.Checker.Expr
import Parlance.Operator.Evaluation
import Parlance.Proofs.Basic

namespace Parlance

/-- The value is no object of a host. -/
def Value.Hostless (v : Value) : Prop :=
  ∀ o, v ≠ .object o

namespace Value

theorem hostless_nil : nil.Hostless := by
  intro o h
  cases h

theorem hostless_boolean (b : Bool) : (boolean b).Hostless := by
  intro o h
  cases h

theorem hostless_integer (n : Int) : (integer n).Hostless := by
  intro o h
  cases h

end Value

theorem onNumbers_hostless {a : Arithmetic} {l r v : Value} (h : a.onNumbers l r = .ok v) :
    v.Hostless := by
  rintro o rfl
  unfold Arithmetic.onNumbers at h
  split at h
  · obtain ⟨_, -, ⟨⟩⟩ := Except.map_ok.mp h
  · obtain ⟨_, -, ⟨⟩⟩ := Except.map_ok.mp h
  · cases h

/-- No operator makes an object. -/
theorem binaryApply_hostless {op : Name} {l r v : Value} (h : binaryApply op l r = .ok v) :
    v.Hostless := by
  rintro obj rfl
  unfold binaryApply at h
  split at h
  case h_2 => cases h
  next o _ =>
  unfold Operator.apply at h
  split at h
  · obtain ⟨_, -, ⟨⟩⟩ := Except.map_ok.mp h
  · obtain ⟨_, -, ⟨⟩⟩ := Except.map_ok.mp h
  · cases h
  · cases h
  · split at h <;> cases h
  · split at h
    · obtain ⟨_, _, h⟩ := bind_ok.mp (Except.mapError_ok.mp h)
      obtain ⟨_, _, ⟨⟩⟩ := bind_ok.mp h
    · exact onNumbers_hostless h obj rfl
  · exact onNumbers_hostless h obj rfl

theorem literalType_hostless {v : Value} {t : Ty} (h : literalType v = .ok t) : v.Hostless := by
  rintro o rfl
  cases h

end Parlance
