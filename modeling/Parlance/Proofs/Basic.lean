/-
Results that are not faults, and lists that are related item by item.

Most of the checker, and all that the host's functions do, is put together from parts that
may fail.  When the whole has a result each part has had one.

What is checked and what runs are set side by side as two lists, of variables or of functions.
Where a key means the same on both sides, it finds items that are related, or none on either.
-/
import Mathlib.Data.List.Forall2
import Mathlib.Data.Option.Defs

namespace Parlance

/-! ### Results -/

section Results

variable {ε α β : Type} {x : Except ε α} {b : β}

theorem bind_ok {f : α → Except ε β} : x >>= f = .ok b ↔ ∃ a, x = .ok a ∧ f a = .ok b := by
  cases x <;> simp [bind, Except.bind]

theorem bind_error {f : α → Except ε β} {e : ε} :
    x >>= f = .error e ↔ x = .error e ∨ ∃ a, x = .ok a ∧ f a = .error e := by
  cases x <;> simp [bind, Except.bind]

theorem Except.bind_ok {f : α → Except ε β} :
    x.bind f = .ok b ↔ ∃ a, x = .ok a ∧ f a = .ok b := by
  cases x <;> simp [Except.bind]

theorem Except.map_ok {f : α → β} : x.map f = .ok b ↔ ∃ a, x = .ok a ∧ f a = b := by
  cases x <;> simp [Except.map]

theorem Except.mapError_ok {ε' : Type} {f : ε → ε'} {a : α} :
    x.mapError f = .ok a ↔ x = .ok a := by
  cases x <;> simp [Except.mapError]

theorem Except.map_error {f : α → β} {e : ε} : x.map f = .error e ↔ x = .error e := by
  cases x <;> simp [Except.map]

theorem Except.mapError_error {ε' : Type} {f : ε → ε'} {e : ε'} :
    x.mapError f = .error e ↔ ∃ c, x = .error c ∧ f c = e := by
  cases x <;> simp [Except.mapError]

/-- Each of the results is that of one of the arguments. -/
theorem mapM_ok {f : α → Except ε β} {as : List α} {bs : List β}
    (h : as.mapM f = .ok bs) : ∀ b ∈ bs, ∃ a ∈ as, f a = .ok b := by
  induction as generalizing bs with
  | nil =>
    cases h
    intro b hb
    exact absurd hb List.not_mem_nil
  | cons a as ih =>
    rw [List.mapM_cons] at h
    obtain ⟨b', hb', h⟩ := bind_ok.mp h
    obtain ⟨bs', hbs', h⟩ := bind_ok.mp h
    cases h
    intro b hb
    rcases List.mem_cons.mp hb with rfl | hb
    · exact ⟨a, List.mem_cons_self, hb'⟩
    · obtain ⟨a', ha', he⟩ := ih hbs' b hb
      exact ⟨a', List.mem_cons_of_mem _ ha', he⟩

end Results

/-! ### Related lists -/

theorem forall₂_comp {α β γ : Type} {R : α → β → Prop} {S : β → γ → Prop} {T : α → γ → Prop}
    (hT : ∀ {a b c}, R a b → S b c → T a c) {as : List α} {bs : List β} {cs : List γ}
    (hr : List.Forall₂ R as bs) (hs : List.Forall₂ S bs cs) : List.Forall₂ T as cs := by
  induction hr generalizing cs with
  | nil =>
    cases hs
    exact .nil
  | cons h _ ih =>
    cases hs with
    | cons h' hs => exact .cons (hT h h') (ih hs)

/-- Two lists that are related to the same one are related to each other through its items. -/
theorem forall₂_through {α β γ : Type} {R : α → β → Prop} {S : α → γ → Prop} {as : List α}
    {bs : List β} {cs : List γ} (hr : List.Forall₂ R as bs) (hs : List.Forall₂ S as cs) :
    List.Forall₂ (fun b c => ∃ a ∈ as, R a b ∧ S a c) bs cs := by
  induction hr generalizing cs with
  | nil =>
    cases hs
    exact .nil
  | cons h _ ih =>
    cases hs with
    | cons h' hs =>
      refine .cons ⟨_, List.mem_cons_self, h, h'⟩ ((ih hs).imp ?_)
      rintro b c ⟨a, ha, hab⟩
      exact ⟨a, List.mem_cons_of_mem _ ha, hab⟩

/-- Two relations that agree on the items of a list relate it to the same lists. -/
theorem forall₂_congr_mem {α β : Type} {R S : α → β → Prop} {as : List α} {bs : List β}
    (h : ∀ a ∈ as, ∀ b, R a b ↔ S a b) : List.Forall₂ R as bs ↔ List.Forall₂ S as bs := by
  induction as generalizing bs with
  | nil => simp
  | cons a as ih =>
    have ih {bs : List β} : List.Forall₂ R as bs ↔ List.Forall₂ S as bs :=
      ih fun a' ha' => h a' (List.mem_cons_of_mem _ ha')
    simp only [List.forall₂_cons_left_iff, h a List.mem_cons_self, ih]

theorem exists_left_of_forall₂ {α β : Type} {R : α → β → Prop} {as : List α} {bs : List β}
    (h : List.Forall₂ R as bs) {b : β} (hb : b ∈ bs) : ∃ a ∈ as, R a b := by
  induction h with
  | nil => cases hb
  | cons hab _ ih =>
    rcases List.mem_cons.mp hb with rfl | hb
    · exact ⟨_, List.mem_cons_self, hab⟩
    · obtain ⟨a, ha, hR⟩ := ih hb
      exact ⟨a, List.mem_cons_of_mem _ ha, hR⟩

theorem exists_right_of_forall₂ {α β : Type} {R : α → β → Prop} {as : List α} {bs : List β}
    (h : List.Forall₂ R as bs) {a : α} (ha : a ∈ as) : ∃ b ∈ bs, R a b :=
  exists_left_of_forall₂ h.flip ha

/-- Finding in two lists that are related item by item, what is asked for being the same. -/
theorem forall₂_find? {α β : Type} {R : α → β → Prop} {p : α → Bool} {q : β → Bool}
    (hpq : ∀ {a b}, R a b → p a = q b) {as : List α} {bs : List β} (h : List.Forall₂ R as bs) :
    (as.find? p).Rel R (bs.find? q) := by
  induction h with
  | nil => exact .none
  | @cons a b as bs hab _ ih =>
    rw [List.find?_cons, List.find?_cons, hpq hab]
    cases q b with
    | true => exact .some hab
    | false => exact ih

/-- One item of a list is changed, and the others are related to themselves. -/
theorem forall₂_modify {α : Type} {R : α → α → Prop} {f : α → α} {as : List α} {i : Nat}
    (hrefl : ∀ a ∈ as, R a a) (hi : ∀ a, as[i]? = some a → R a (f a)) :
    List.Forall₂ R as (as.modify i f) := by
  induction as generalizing i with
  | nil => simp
  | cons a as ih =>
    obtain ⟨ha, has⟩ := List.forall_mem_cons.mp hrefl
    cases i with
    | zero => exact .cons (hi a rfl) (List.forall₂_same.mpr has)
    | succ i => exact .cons ha (ih has hi)

theorem isEmpty_of_forall₂ {α β : Type} {R : α → β → Prop} {as : List α} {bs : List β}
    (h : List.Forall₂ R as bs) (hne : as ≠ []) : ¬bs.isEmpty = true := by
  cases h with
  | nil => exact absurd rfl hne
  | cons _ _ => exact nofun

theorem exists_of_rel {α β : Type} {R : α → β → Prop} {o : Option α} {o' : Option β} {a : α}
    (h : o.Rel R o') (ho : o = some a) : ∃ b, o' = some b ∧ R a b := by
  cases h with
  | some hab =>
    cases ho
    exact ⟨_, rfl, hab⟩
  | none => cases ho

theorem none_of_rel {α β : Type} {R : α → β → Prop} {o : Option α} {o' : Option β}
    (h : o.Rel R o') (ho : o = none) : o' = none := by
  cases h with
  | some _ => cases ho
  | none => rfl

end Parlance
