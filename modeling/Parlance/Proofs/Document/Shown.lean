/-
Which JSON values messages can show.

A message can show a value if none of the integers in it is too long for a text.  The reader of
JSON refuses longer integers, so whatever it reads from a text can be shown.  A longer integer can
only be in a value that was put together in another way.
-/
import Mathlib.Data.List.TakeWhile
import Parlance.Json.Reader
import Parlance.Json.Shown
import Parlance.Proofs.Document.Numerals

namespace Parlance.Json

open Parlance.Number (digitCount maxDigits)
open Parlance.Text (ofDigits)

/-! ### Short values -/

mutual

/-- No integer in the value is too long for a text. -/
def Short : Json → Prop
  | .integer n => digitCount n.natAbs ≤ maxDigits
  | .array items => ShortItems items
  | .object entries => ShortEntries entries
  | .null | .bool _ | .number _ | .string _ => True

/-- Nor is one in the items. -/
def ShortItems : List Json → Prop
  | [] => True
  | v :: rest => v.Short ∧ ShortItems rest

/-- Nor is one in the entries. -/
def ShortEntries : List (Text × Json) → Prop
  | [] => True
  | (_, v) :: rest => v.Short ∧ ShortEntries rest

end

theorem shortItems_iff {vs : List Json} : ShortItems vs ↔ ∀ v ∈ vs, v.Short := by
  induction vs with
  | nil => simp [ShortItems]
  | cons v rest ih => simp [ShortItems, ih]

theorem Short.item {items : List Json} (h : (Json.array items).Short) {v : Json} (hv : v ∈ items) :
    v.Short := by
  rw [Short] at h
  exact shortItems_iff.mp h v hv

theorem ShortEntries.get? {key : Text} {v : Json} : {es : List (Text × Json)} →
    ShortEntries es → Json.get? key es = some v → v.Short
  | [], _, hv => by cases hv
  | (k, w) :: rest, h, hv => by
    rw [ShortEntries] at h
    rw [Json.get?] at hv
    split at hv
    · cases hv
      exact h.1
    · exact ShortEntries.get? h.2 hv

theorem ShortEntries.insert (key : Text) {v : Json} (hv : v.Short) : {es : List (Text × Json)} →
    ShortEntries es → ShortEntries (insert key v es)
  | [], _ => by
    rw [Json.insert, ShortEntries]
    exact ⟨hv, trivial⟩
  | (k, w) :: rest, h => by
    rw [ShortEntries] at h
    rw [Json.insert]
    split
    · exact ⟨hv, h.2⟩
    · exact ⟨h.1, ShortEntries.insert key hv h.2⟩

/-! ### What can be shown -/

mutual

/-- **Messages can show the values without an integer that is too long**, and no others. -/
theorem shown?_isSome : (v : Json) → (v.shown?.isSome = true ↔ v.Short)
  | .integer n => by
    simp only [shown?, Number.text?, Short]
    split <;> simp_all
  | .array items => by simp only [shown?, Option.isSome_map, shownItems?_isSome items, Short]
  | .object entries => by
    simp only [shown?, Option.isSome_map, shownEntries?_isSome entries, Short]
  | .null | .bool true | .bool false | .number _ | .string _ => by simp [shown?, Short]

theorem shownItems?_isSome : (vs : List Json) → ((shownItems? vs).isSome = true ↔ ShortItems vs)
  | [] => by simp [shownItems?, ShortItems]
  | v :: rest => by
    rw [ShortItems, ← shown?_isSome v, ← shownItems?_isSome rest, shownItems?]
    cases v.shown? <;> cases shownItems? rest <;> simp

theorem shownEntries?_isSome :
    (es : List (Text × Json)) → ((shownEntries? es).isSome = true ↔ ShortEntries es)
  | [] => by simp [shownEntries?, ShortEntries]
  | (k, v) :: rest => by
    rw [ShortEntries, ← shown?_isSome v, ← shownEntries?_isSome rest, shownEntries?]
    cases v.shown? <;> cases shownEntries? rest <;> simp

end

theorem named?_isSome {v : Json} (h : v.Short) : v.named?.isSome = true := by
  unfold named?
  split
  · rfl
  · rw [Option.isSome_map]
    exact (shown?_isSome v).mpr h

/-! ### What is read -/

theorem digits_small {cs : List Char} : ∀ d ∈ (digits cs).1, d < 10 := by
  intro d hd
  obtain ⟨c, hc, rfl⟩ := List.mem_map.mp hd
  have hdigit := List.mem_takeWhile_imp hc
  simp only [Char.isDigit, ge_iff_le, Bool.and_eq_true, decide_eq_true_eq,
    UInt32.le_iff_toNat_le] at hdigit
  have hlast : c.toNat ≤ 57 := hdigit.2
  omega

theorem wholePart_small {cs rest : List Char} {ds : List Nat}
    (h : wholePart cs = some (ds, rest)) : ∀ d ∈ ds, d < 10 := by
  unfold wholePart at h
  split at h
  · cases h
    simp
  · split at h
    · cases h
    · next hds =>
      cases h
      have hsmall : ∀ d ∈ (digits cs).1, d < 10 := digits_small
      rwa [hds] at hsmall

theorem short_numberAfterSign {negative : Bool} {cs rest : List Char} {v : Json}
    (h : numberAfterSign negative cs = some (v, rest)) : v.Short := by
  obtain ⟨⟨whole, cs'⟩, hwhole, h⟩ := Option.bind_eq_some_iff.mp h
  have hsmall := wholePart_small hwhole
  dsimp only at h
  split at h
  · split at h
    · cases h
    · next hlength =>
      have hcount := digitCount_ofDigits_le hsmall (by decide) (Nat.le_of_not_lt hlength)
      cases h
      rw [Short]
      cases negative
      · exact hcount
      · rwa [if_pos rfl, Int.natAbs_neg]
  · cases h
    exact trivial

theorem short_constant {cs rest : List Char} {v : Json} (h : constant cs = some (v, rest)) :
    v.Short := by
  simp only [constant, Option.orElse_eq_orElse, Option.orElse_eq_or, Option.or_eq_some_iff,
    Option.map_eq_some_iff, Prod.mk.injEq] at h
  grind [Short]

theorem short_number {negative : Bool} {cs cs' rest : List Char} {v : Json}
    (h : (numberAfterSign negative cs <|> constant cs') = some (v, rest)) : v.Short := by
  rw [Option.orElse_eq_orElse, Option.orElse_eq_or, Option.or_eq_some_iff] at h
  obtain h | ⟨-, h⟩ := h
  · exact short_numberAfterSign h
  · exact short_constant h

-- the three readers that call one another, by the fuel that they share
mutual

theorem short_value : (fuel : Nat) → {cs rest : List Char} → {v : Json} →
    value fuel cs = some (v, rest) → v.Short
  | 0, _, _, _, h => by cases h
  | fuel + 1, cs, rest, v, h => by
    rw [value] at h
    split at h
    · cases h
    · obtain ⟨_, _, hv⟩ := Option.map_eq_some_iff.mp h
      cases hv
      exact trivial
    · split at h
      · cases h
        exact trivial
      · obtain ⟨_, hread, hv⟩ := Option.map_eq_some_iff.mp h
        cases hv
        exact shortItems_iff.mpr (short_items fuel (by simp) hread)
    · split at h
      · cases h
        exact trivial
      · obtain ⟨_, hread, hv⟩ := Option.map_eq_some_iff.mp h
        cases hv
        exact short_entries fuel (by rw [ShortEntries]; exact trivial) hread
    · exact short_number h
    · exact short_number h

theorem short_items : (fuel : Nat) → {before : List Json} → {cs rest : List Char} →
    {vs : List Json} → (∀ v ∈ before, v.Short) → items fuel before cs = some (vs, rest) →
    ∀ v ∈ vs, v.Short
  | 0, _, _, _, _, _, h => by cases h
  | fuel + 1, before, cs, rest, vs, hbefore, h => by
    rw [items] at h
    split at h
    · cases h
    · next v _ hv =>
      have hall : ∀ w ∈ v :: before, w.Short := by
        simpa using ⟨short_value fuel hv, hbefore⟩
      split at h
      · cases h
        simpa [or_imp, forall_and] using And.comm.mp (List.forall_mem_cons.mp hall)
      · exact short_items fuel hall h
      · cases h

theorem short_entries : (fuel : Nat) → {before : List (Text × Json)} → {cs rest : List Char} →
    {es : List (Text × Json)} → ShortEntries before → entries fuel before cs = some (es, rest) →
    ShortEntries es
  | 0, _, _, _, _, _, h => by cases h
  | fuel + 1, before, cs, rest, es, hbefore, h => by
    rw [entries] at h
    split at h
    · obtain ⟨⟨key, _⟩, -, h⟩ := Option.bind_eq_some_iff.mp h
      dsimp only at h
      split at h
      · obtain ⟨⟨v, _⟩, hv, h⟩ := Option.bind_eq_some_iff.mp h
        have hall := ShortEntries.insert key (short_value fuel hv) hbefore
        dsimp only at h
        split at h
        · cases h
          exact hall
        · exact short_entries fuel hall h
        · cases h
      · cases h
    · cases h

end

/-- **What is read from a text can be shown.** -/
theorem short_of_ofText? {s : String} {v : Json} (h : ofText? s = some v) : v.Short := by
  obtain ⟨⟨w, rest⟩, hw, h⟩ := Option.bind_eq_some_iff.mp h
  dsimp only at h
  split at h
  · cases h
    exact short_value _ hw
  · cases h

end Parlance.Json
