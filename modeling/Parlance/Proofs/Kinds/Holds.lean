/-
Values in places of a type.

`Ty.admits` asks whether a value may stand where a type is expected, by the type that its
kind names.  A running program keeps less than that: a variable may not have been given a
value yet, and a method may end without one, and in both cases there is `Nil` where a type
was promised.  `Holds` is what is kept.  It comes in two strengths, a lax one that lets
`Nil` stand anywhere and a strict one that does not, and all that is said of the two is
proved of both at once.

Acceptance is transitive, and that alone lets a value move from place to place.
-/
import Parlance.Proofs.Checking.Judgement
import Parlance.Value

namespace Parlance

namespace Ty

/-- Whether a value may stand where one of the type is expected: whether the type accepts the
one that the value's kind names. Only the name of that type matters. -/
def admits (t : Ty) (v : Value) : Bool :=
  t.accepts ⟨v.kind, v.kind, 0⟩

theorem accepts_iff {a b : Ty} :
    a.accepts b = true ↔ a.name = b.name ∨ a.name = Builtin.any.name ∨
      a.name = Builtin.comparable.name ∧ b.name ∈ orderedNames := by
  simp [accepts, is, or_assoc]

/-- A type that accepts another accepts all that the other accepts. -/
theorem accepts_trans {a b c : Ty} (hab : a.accepts b = true) (hbc : b.accepts c = true) :
    a.accepts c = true := by
  rw [accepts_iff] at hab hbc ⊢
  rcases hab with hab | hab | ⟨ha, hb⟩
  · rwa [hab]
  · exact .inr (.inl hab)
  · refine .inr (.inr ⟨ha, ?_⟩)
    rcases hbc with hbc | hbc | ⟨hbc, -⟩
    · rwa [← hbc]
    · exact absurd (hbc ▸ hb) (by decide)
    · exact absurd (hbc ▸ hb) (by decide)

theorem admits_of_kind {t : Ty} {v : Value} (h : t.name = v.kind) : t.admits v = true :=
  accepts_iff.mpr (.inl h)

end Ty

namespace Value

/-- The built-in type that the kind of a value names; an object of the host has none. -/
def builtin? : Value → Option Builtin
  | nil => some .nil
  | boolean _ => some .boolean
  | character _ => some .character
  | string _ => some .string
  | integer _ => some .integer
  | decimal _ => some .decimal
  | iterable _ => some .integerIterable
  | object _ => none

variable {v : Value}

theorem kind_of_builtin? {b : Builtin} (h : v.builtin? = some b) : v.kind = b.name := by
  cases v <;> cases h <;> rfl

theorem eq_boolean (h : v.builtin? = some .boolean) : ∃ b, v = boolean b := by
  cases v <;> cases h
  exact ⟨_, rfl⟩

theorem eq_integer (h : v.builtin? = some .integer) : ∃ n, v = integer n := by
  cases v <;> cases h
  exact ⟨_, rfl⟩

theorem eq_decimal (h : v.builtin? = some .decimal) : ∃ d, v = decimal d := by
  cases v <;> cases h
  exact ⟨_, rfl⟩

theorem eq_iterable (h : v.builtin? = some .integerIterable) : ∃ items, v = iterable items := by
  cases v <;> cases h
  exact ⟨_, rfl⟩

end Value

/-- A type that is neither `Any` nor `Comparable` admits only values of its own name. -/
theorem Ty.builtin?_of_admits {t : Ty} {v : Value} {b c : Builtin} (h : t.admits v = true)
    (ht : t.name = b.name) (ha : b ≠ .any) (hc : b ≠ .comparable) (hv : v.builtin? = some c) :
    c = b := by
  unfold admits at h
  rw [accepts_iff, ht, Value.kind_of_builtin? hv] at h
  rcases h with h | h | ⟨h, -⟩
  · exact (Builtin.name_injective h).symm
  · exact absurd (Builtin.name_injective h) ha
  · exact absurd (Builtin.name_injective h) hc

/-! ### What a running program keeps -/

/-- The value may stand in a place of that type, which is known: it is no object, and the type
admits it, unless `Nil` is let through. -/
def Holds (lax : Bool) (t : Option Ty) (v : Value) : Prop :=
  ∃ s b, t = some s ∧ v.builtin? = some b ∧ (s.admits v = true ∨ lax = true ∧ v = .nil)

variable {lax : Bool}

namespace Holds

theorem of_builtin {t : Ty} {v : Value} {b : Builtin} (hv : v.builtin? = some b)
    (ht : t.name = b.name) : Holds lax (some t) v :=
  ⟨t, b, rfl, hv, .inl (Ty.admits_of_kind (ht.trans (Value.kind_of_builtin? hv).symm))⟩

theorem nil {t : Ty} : Holds true (some t) .nil :=
  ⟨t, _, rfl, rfl, .inr ⟨rfl, rfl⟩⟩

/-- A value moves to every place whose type takes that of its own. -/
theorem moved {target source : Option Ty} {v : Value} (h : Holds lax source v)
    (ht : Ty.Takes target source) : Holds lax target v := by
  obtain ⟨t, s, rfl, rfl, ha⟩ := ht
  obtain ⟨s', b, hs, hb, hv⟩ := h
  cases hs
  exact ⟨t, b, rfl, hb, hv.imp_left (Ty.accepts_trans ha)⟩

/-- In a place of a type that is neither `Any` nor `Comparable` the kind of a value is known. -/
theorem builtin {t : Ty} {v : Value} {b : Builtin} (h : Holds lax (some t) v)
    (ht : t.name = b.name) (ha : b ≠ .any) (hc : b ≠ .comparable) :
    v.builtin? = some b ∨ lax = true ∧ v = .nil := by
  obtain ⟨s, c, hs, hv, hadm⟩ := h
  cases hs
  exact hadm.imp_left fun hadm => Ty.builtin?_of_admits hadm ht ha hc hv ▸ hv

theorem boolean {t : Option Ty} {v : Value} (h : Holds lax t v)
    (ht : Ty.Takes (some Builtin.boolean.type) t) :
    (∃ b, v = .boolean b) ∨ lax = true ∧ v = .nil :=
  ((h.moved ht).builtin (b := .boolean) rfl (by decide) (by decide)).imp_left Value.eq_boolean

theorem iterable {t : Ty} {v : Value} (h : Holds lax (some t) v)
    (ht : t.is .integerIterable = true) :
    (∃ items, v = .iterable items) ∨ lax = true ∧ v = .nil :=
  (h.builtin (b := .integerIterable) (by simpa [Ty.is] using ht) (by decide)
    (by decide)).imp_left Value.eq_iterable

end Holds

/-- A literal has the type that the check gives it. -/
theorem holds_literal {v : Value} {t : Ty} (h : literalType v = .ok t) :
    Holds lax (some t) v := by
  cases v <;> simp only [literalType] at h <;> (repeat' split at h) <;> cases h <;>
    exact .of_builtin rfl rfl

end Parlance
