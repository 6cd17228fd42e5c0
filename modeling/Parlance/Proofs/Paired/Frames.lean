/-
Frames under other names.

The frames of a running method are aligned with those of another when they hold the same values
under the names of a renaming.  What is looked up, set, declared, entered and left in the one is
so in the other under the other name.
-/
import Parlance.Proofs.Paired.Code
import Parlance.Proofs.Running.Changes

namespace Parlance

/-! ### Frames -/

namespace Renaming

variable (ν : Renaming)

/-- A frame under other names. -/
def frame (f : Frame) : Frame :=
  f.map fun (n, v) => (ν.name n, v)

/-- Frames under other names. -/
def locals (ls : Locals) : Locals :=
  ls.map ν.frame

@[simp] theorem frame_get? (f : Frame) (n : Name) :
    Frame.get? (ν.frame f) (ν.name n) = Frame.get? f n := by
  induction f with
  | nil => rfl
  | cons b rest ih =>
    simp only [frame, List.map_cons, Frame.get?, name_eq_iff] at ih ⊢
    rw [ih]

@[simp] theorem frame_set (f : Frame) (n : Name) (v : Value) :
    Frame.set (ν.frame f) (ν.name n) v = ν.frame (Frame.set f n v) := by
  induction f with
  | nil => rfl
  | cons b rest ih =>
    simp only [frame, List.map_cons, Frame.set, name_eq_iff] at ih ⊢
    rw [ih]
    split <;> rfl

@[simp] theorem locals_get? (ls : Locals) (n : Name) :
    Locals.get? (ν.locals ls) (ν.name n) = Locals.get? ls n := by
  induction ls with
  | nil => rfl
  | cons f outer ih =>
    simp only [locals, List.map_cons, Locals.get?, frame_get?] at ih ⊢
    rw [ih]

@[simp] theorem locals_set (ls : Locals) (n : Name) (v : Value) :
    Locals.set (ν.locals ls) (ν.name n) v = ν.locals (Locals.set ls n v) := by
  induction ls with
  | nil => rfl
  | cons f outer ih =>
    simp only [locals, List.map_cons, Locals.set, frame_get?, frame_set] at ih ⊢
    split
    · rfl
    · rw [ih]
      rfl

end Renaming

/-- Frames that hold the same values, of some sort, under the names of a renaming. -/
structure Aligned (sort : Value → Prop) (ν : Renaming) (ls ls' : Locals) : Prop where
  renamed : ls' = ν.locals ls
  sorted : ∀ f ∈ ls, ∀ b ∈ f, sort b.2
  /-- The method's own names are those of parameters, which stand in the outermost frame. -/
  own : ∀ n, ν.own n → ∃ ns, ls.names.getLast? = some ns ∧ n ∈ ns
  /-- Outside of methods nothing is renamed. -/
  outside : ls = [] → ∀ n, ν.name n = n

theorem Locals.length_set (ls : Locals) (n : Name) (v : Value) :
    (ls.set n v).length = ls.length := by
  have := congrArg List.length (Locals.names_set ls n v)
  rwa [List.length_map, List.length_map] at this

namespace Aligned

variable {sort : Value → Prop} {ν : Renaming} {ls ls' : Locals} {n : Name} {v : Value}

theorem get?_eq (h : Aligned sort ν ls ls') : ls'.get? (ν.name n) = ls.get? n := by
  rw [h.renamed, Renaming.locals_get?]

theorem mem_of_frame_get? {f : Frame} (h : Frame.get? f n = some v) : (n, v) ∈ f := by
  induction f with
  | nil => cases h
  | cons b rest ih =>
    obtain ⟨m, w⟩ := b
    rw [Frame.get?] at h
    split at h
    · next hm =>
      cases h
      exact hm ▸ List.mem_cons_self
    · exact List.mem_cons_of_mem _ (ih h)

theorem exists_of_get? {ls : Locals} (h : ls.get? n = some v) : ∃ f ∈ ls, (n, v) ∈ f := by
  induction ls with
  | nil => cases h
  | cons f outer ih =>
    rw [Locals.get?] at h
    split at h
    · next hf =>
      cases h
      exact ⟨f, List.mem_cons_self, mem_of_frame_get? hf⟩
    · obtain ⟨g, hg, hm⟩ := ih h
      exact ⟨g, List.mem_cons_of_mem _ hg, hm⟩

theorem sort_of_get? (h : Aligned sort ν ls ls') (hv : ls.get? n = some v) : sort v := by
  obtain ⟨f, hf, hm⟩ := exists_of_get? hv
  exact h.sorted f hf _ hm

theorem frame_get?_of_mem {f : Frame} (h : n ∈ f.map Prod.fst) : ∃ v, Frame.get? f n = some v := by
  induction f with
  | nil => cases h
  | cons b rest ih =>
    obtain ⟨m, w⟩ := b
    rw [Frame.get?]
    split
    · exact ⟨w, rfl⟩
    · next hm =>
      rcases List.mem_cons.mp h with rfl | h
      · exact absurd rfl hm
      · exact ih h

theorem get?_of_mem {ls : Locals} {ns : List Name} (hns : ns ∈ ls.names) (h : n ∈ ns) :
    ∃ v, ls.get? n = some v := by
  induction ls with
  | nil => cases hns
  | cons f outer ih =>
    rw [Locals.get?]
    cases hf : Frame.get? f n with
    | some v => exact ⟨v, rfl⟩
    | none =>
      rcases List.mem_cons.mp hns with rfl | hns
      · obtain ⟨v, hv⟩ := frame_get?_of_mem h
        rw [hf] at hv
        cases hv
      · exact ih hns

/-- A name of the method's own means one of its variables. -/
theorem get?_of_own (h : Aligned sort ν ls ls') (hn : ν.own n) : ∃ v, ls.get? n = some v := by
  obtain ⟨ns, hlast, hns⟩ := h.own n hn
  exact get?_of_mem (List.mem_of_getLast? hlast) hns

/-- A name that means none of the method's variables stays as it is. -/
theorem name_eq (h : Aligned sort ν ls ls') (hn : ν.Allows n) (hnone : ls.get? n = none) :
    ν.name n = n := by
  rcases hn with hn | hn
  · obtain ⟨v, hv⟩ := h.get?_of_own hn
    rw [hnone] at hv
    cases hv
  · exact hn

theorem sorted_frame_set {f : Frame} (hf : ∀ b ∈ f, sort b.2) (hv : sort v) :
    ∀ b ∈ Frame.set f n v, sort b.2 := by
  induction f with
  | nil => exact List.forall_mem_nil _
  | cons b rest ih =>
    obtain ⟨hb, hrest⟩ := List.forall_mem_cons.mp hf
    rw [Frame.set]
    split
    · exact List.forall_mem_cons.mpr ⟨hv, hrest⟩
    · exact List.forall_mem_cons.mpr ⟨hb, ih hrest⟩

theorem sorted_set {ls : Locals} (hs : ∀ f ∈ ls, ∀ b ∈ f, sort b.2) (hv : sort v) :
    ∀ f ∈ ls.set n v, ∀ b ∈ f, sort b.2 := by
  induction ls with
  | nil => exact List.forall_mem_nil _
  | cons f outer ih =>
    obtain ⟨hf, houter⟩ := List.forall_mem_cons.mp hs
    rw [Locals.set]
    split
    · exact List.forall_mem_cons.mpr ⟨sorted_frame_set hf hv, houter⟩
    · exact List.forall_mem_cons.mpr ⟨hf, ih houter⟩

/-- An assignment changes a value and no name. -/
theorem set (h : Aligned sort ν ls ls') (hv : sort v) :
    Aligned sort ν (ls.set n v) (ls'.set (ν.name n) v) where
  renamed := by rw [h.renamed, Renaming.locals_set]
  sorted := sorted_set h.sorted hv
  own m hm := by
    have names : (ls.set n v).names = ls.names := Locals.names_set ls n v
    rw [names]
    exact h.own m hm
  outside hnil := by
    have := Locals.length_set ls n v
    rw [hnil] at this
    exact h.outside (List.length_eq_zero_iff.mp this.symm)

theorem own_nil (h : Aligned sort ν [] ls') : ¬ ν.own n := by
  intro hn
  obtain ⟨ns, ⟨⟩, -⟩ := h.own n hn

/-- A block is entered with a frame of its own. -/
theorem enter {f : Frame} (h : Aligned sort ν ls ls') (hf : ∀ b ∈ f, sort b.2) :
    Aligned sort ν (f :: ls) (ν.frame f :: ls') where
  renamed := by rw [h.renamed, Renaming.locals, Renaming.locals, List.map_cons]
  sorted := List.forall_mem_cons.mpr ⟨hf, h.sorted⟩
  own n hn := by
    cases ls with
    | nil => exact absurd hn h.own_nil
    | cons g rest =>
      obtain ⟨ns, hlast, hns⟩ := h.own n hn
      exact ⟨ns, by simpa [Locals.names] using hlast, hns⟩
  outside := nofun

/-- The frame of a block is dropped when the block is left. -/
theorem leave {inner inner' : Locals} (h : Aligned sort ν ls ls') (hi : Aligned sort ν inner inner')
    (hlength : inner.length = ls.length + 1) : Aligned sort ν inner.tail inner'.tail where
  renamed := by rw [hi.renamed, Renaming.locals, Renaming.locals, List.map_tail]
  sorted f hf := hi.sorted f (List.mem_of_mem_tail hf)
  own n hn := by
    -- The parameters stand in the outermost frame, which is not the one that is dropped.
    match inner, ls with
    | _, [] => exact absurd hn h.own_nil
    | f :: g :: rest, _ :: _ =>
      obtain ⟨ns, hlast, hns⟩ := hi.own n hn
      exact ⟨ns, by simpa [Locals.names] using hlast, hns⟩
  outside hnil := by
    refine h.outside (List.length_eq_zero_iff.mp ?_)
    have := congrArg List.length hnil
    rw [List.length_tail, hlength] at this
    exact this

/-- A declaration adds to the innermost frame. -/
theorem declare {f : Frame} (h : Aligned sort ν (f :: ls) ls') (hv : sort v) :
    Aligned sort ν ((f ++ [(n, v)]) :: ls) (ν.frame (f ++ [(n, v)]) :: ls'.tail) where
  renamed := by rw [h.renamed, Renaming.locals, Renaming.locals, List.map_cons, List.tail_cons,
    List.map_cons]
  sorted := by
    obtain ⟨hf, hrest⟩ := List.forall_mem_cons.mp h.sorted
    refine List.forall_mem_cons.mpr ⟨fun b hb => ?_, hrest⟩
    rcases List.mem_append.mp hb with hb | hb
    · exact hf b hb
    · cases List.mem_singleton.mp hb
      exact hv
  own m hm := by
    obtain ⟨ns, hlast, hns⟩ := h.own m hm
    cases ls with
    | nil =>
      cases hlast
      refine ⟨_, rfl, ?_⟩
      rw [List.map_append]
      exact List.mem_append_left _ hns
    | cons g rest => exact ⟨ns, by simpa [Locals.names] using hlast, hns⟩
  outside := nofun

/-- The frame of the parameters, if there is an argument to each that is the method's own. -/
theorem parameters {ps : List Name} {vs : List Value} (hvs : ∀ v ∈ vs, sort v)
    (hown : ∀ n, ν.own n → n ∈ ps ∧ ps.length ≤ vs.length) :
    Aligned sort ν [ps.zip vs] [ν.frame (ps.zip vs)] where
  renamed := rfl
  sorted := List.forall_mem_singleton.mpr fun b hb => hvs b.2 (List.of_mem_zip hb).2
  own n hn := by
    obtain ⟨hmem, hlength⟩ := hown n hn
    refine ⟨_, rfl, ?_⟩
    rwa [List.map_fst_zip hlength]
  outside := nofun

end Aligned

/-- No frames, outside of methods. -/
theorem aligned_nil (sort : Value → Prop) : Aligned sort .same [] [] where
  renamed := rfl
  sorted := nofun
  own _ h := h.elim
  outside _ _ := rfl

end Parlance
