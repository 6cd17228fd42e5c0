/-
Calls that go back.

The check lets the body of a method call what has been declared by then: `print`, the methods before
it, and the method itself.  So where a host provides no functions, and no method calls itself, every
call of an accepted source goes back in the order of its methods.

This only concerns names, numbers of arguments, literals and forms of nodes, which a tree has in
common with its bare tree.
-/
import Parlance.Proofs.Calls.Agreement
import Parlance.Proofs.Checking.Bare
import Parlance.Proofs.Checking.Parts
import Parlance.Proofs.Operators.Hostless

namespace Parlance

open Store (AddsFunctions)

/-! ### Loops and calls -/

/-- Whether a node is a loop that runs as long as a condition holds. -/
def Node.isLoop : Node → Bool
  | .stmt (.whileLoop _ _) => true
  | _ => false

/-- Whether a node is a call of that name with so many arguments. -/
def Node.calls (key : Name × Nat) : Node → Bool
  | .expr (.call name arguments _ _) => decide ((name, arguments.length) = key)
  | _ => false

/-- The source has no loop that runs as long as a condition holds. -/
def Source.Loopless (s : Source) : Prop :=
  ∀ n ∈ s.walk, n.isLoop = false

/-- No method of the source calls its own name with as many arguments as it has parameters. -/
def Source.CallsNoneItself (s : Source) : Prop :=
  ∀ p ∈ s.methods, ∀ key ∈ p.key?, ∀ n ∈ p.walk, n.calls key = false

instance (s : Source) : Decidable s.Loopless :=
  inferInstanceAs (Decidable (∀ n ∈ s.walk, n.isLoop = false))

instance (s : Source) : Decidable s.CallsNoneItself :=
  inferInstanceAs
    (Decidable (∀ p ∈ s.methods, ∀ key ∈ p.key?, ∀ n ∈ p.walk, n.calls key = false))

/-- What `print` is looked up by. -/
def printerKey : Name × Nat :=
  ("print", 1)

/-- What `print` and the methods in these places are looked up by. -/
def keys (places : List MethodPlace) : List (Name × Nat) :=
  printerKey :: places.filterMap MethodPlace.key?

/-- The node is no loop, no literal that is an object, and no call of anything but this. -/
def Node.Descends (known : List (Name × Nat)) : Node → Prop
  | .stmt (.whileLoop _ _) => False
  | .expr (.literal v _) => v.Hostless
  | .expr (.call name arguments _ _) => (name, arguments.length) ∈ known
  | _ => True

/-- The values of fields only call `print`, and a method what comes before it. -/
structure Source.Descends (s : Source) : Prop where
  fields : ∀ p ∈ s.fields, p.field?.isSome ∧ ∀ n ∈ p.walk, n.Descends (keys [])
  methods : ∀ before p after, s.methods = before ++ p :: after →
    p.method?.isSome ∧ ∀ n ∈ p.walk, n.Descends (keys before)

/-! ### Bare trees -/

@[simp] theorem Node.isLoop_bare (n : Node) : n.bare.isLoop = n.isLoop := by
  cases n with
  | stmt s => cases s <;> rfl
  | _ => rfl

@[simp] theorem Node.calls_bare (key : Name × Nat) (n : Node) :
    n.bare.calls key = n.calls key := by
  cases n with
  | expr e =>
    cases e with
    | call name arguments _ _ => simp only [bare, Expr.bare, calls, length_bareExprs]
    | _ => rfl
  | _ => rfl

@[simp] theorem Node.descends_bare {known : List (Name × Nat)} (n : Node) :
    n.bare.Descends known ↔ n.Descends known := by
  cases n with
  | stmt s => cases s <;> exact Iff.rfl
  | expr e =>
    cases e with
    | call name arguments _ _ => simp only [bare, Expr.bare, Descends, length_bareExprs]
    | _ => exact Iff.rfl
  | _ => exact Iff.rfl

@[simp] theorem MethodPlace.key?_bare (p : MethodPlace) : p.bare.key? = p.key? := by
  cases p <;> rfl

theorem FieldPlace.isSome_field?_bare (p : FieldPlace) :
    p.bare.field?.isSome = p.field?.isSome := by
  cases p <;> rfl

theorem MethodPlace.isSome_method?_bare (p : MethodPlace) :
    p.bare.method?.isSome = p.method?.isSome := by
  cases p <;> rfl

theorem keys_map_bare (places : List MethodPlace) :
    keys (places.map MethodPlace.bare) = keys places := by
  simp [keys, List.filterMap_map]

/-- What is said of all items of a list, and depends on their images alone, holds of all items of
another list that has the same images. -/
theorem forall_mem_of_map_eq {α β : Type} {f : α → β} {P : α → Prop} {as bs : List α}
    (hP : ∀ a b, f a = f b → P a → P b) (h : as.map f = bs.map f) (ha : ∀ a ∈ as, P a) :
    ∀ b ∈ bs, P b := by
  intro b hb
  obtain ⟨a, hmem, he⟩ := List.mem_map.mp (h ▸ List.mem_map_of_mem (f := f) hb)
  exact hP a b he (ha a hmem)

theorem descends_of_map_eq {known : List (Name × Nat)} {ns ns' : List Node}
    (h : ns.map Node.bare = ns'.map Node.bare) (hns : ∀ n ∈ ns, n.Descends known) :
    ∀ n ∈ ns', n.Descends known := by
  refine forall_mem_of_map_eq (fun n n' he hn => ?_) h hns
  rwa [← n'.descends_bare, ← he, n.descends_bare]

section Bare

variable {s t : Source} (h : s.bare = t.bare)

include h

theorem Source.Loopless.of_bare (hs : s.Loopless) : t.Loopless := by
  refine forall_mem_of_map_eq (f := Node.bare) (fun n n' he hn => ?_) ?_ hs
  · rwa [← n'.isLoop_bare, ← he, n.isLoop_bare]
  · rw [← s.walk_bare, ← t.walk_bare, h]

theorem Source.CallsNoneItself.of_bare (hs : s.CallsNoneItself) : t.CallsNoneItself := by
  refine forall_mem_of_map_eq (f := MethodPlace.bare) (fun p q he hp key hkey => ?_)
    (congrArg Source.methods h) hs
  have hpkey : key ∈ p.key? := by rwa [← p.key?_bare, he, q.key?_bare]
  refine forall_mem_of_map_eq (f := Node.bare) (fun n n' he hn => ?_) ?_ (hp key hpkey)
  · rwa [← n'.calls_bare, ← he, n.calls_bare]
  · rw [← p.walk_bare, ← q.walk_bare, he]

theorem Source.Descends.of_bare (hs : s.Descends) : t.Descends where
  fields := by
    refine forall_mem_of_map_eq (f := FieldPlace.bare) (fun p q he hp => ⟨?_, ?_⟩)
      (congrArg Source.fields h) hs.fields
    · rw [← q.isSome_field?_bare, ← he, p.isSome_field?_bare]
      exact hp.1
    · exact descends_of_map_eq (by rw [← p.walk_bare, ← q.walk_bare, he]) hp.2
  methods before q after ht := by
    have hm : s.methods.map MethodPlace.bare
        = before.map MethodPlace.bare ++ q.bare :: after.map MethodPlace.bare := by
      rw [← List.map_cons, ← List.map_append, ← ht]
      exact congrArg Source.methods h
    obtain ⟨before', rest, hs', hbefore, hrest⟩ := List.map_eq_append_iff.mp hm
    obtain ⟨p, after', rfl, hp, -⟩ := List.map_eq_cons_iff.mp hrest
    obtain ⟨hmethod, hwalk⟩ := hs.methods before' p after' hs'
    refine ⟨?_, ?_⟩
    · rwa [← q.isSome_method?_bare, ← hp, p.isSome_method?_bare]
    · rw [← keys_map_bare before, ← hbefore, keys_map_bare]
      exact descends_of_map_eq (by rw [← p.walk_bare, ← q.walk_bare, hp]) hwalk

end Bare

/-! ### Accepted sources -/

section Accepted

variable {host : Host} {σ σ' : Store}

/-- What the check finds in its own scope, where the host has no functions, is `print` or one of
the methods that it has declared. -/
theorem Host.mem_keys (hhost : ∀ id ∈ host.tables, σ.HasTable id ∧ (σ.table id).routines = [])
    {places : List MethodPlace} {fs : List Function} {name : Name} {count : Nat} {r : Routine}
    (hcheck : AddsFunctions (host.checker σ).1.scope.top (host.checker σ).2 σ'
      (fs.map (⟨·, .none⟩)))
    (hbinds : List.Forall₂ (MethodPlace.Binds (host.checker σ).1.scope.top) places fs)
    (hr : σ'.findFunction name count (host.checker σ).1.scope.tables = some r) :
    (name, count) ∈ keys places := by
  have hnew := host.checker_spec σ
  obtain ⟨id, hid, hmem, rfl, rfl⟩ := Store.mem_of_findFunction hr
  rw [Scope.tables, hnew.outer] at hid
  rcases List.mem_cons.mp hid with rfl | hid
  · rw [hcheck.own, hnew.table] at hmem
    rcases List.mem_cons.mp hmem with rfl | hmem
    · exact List.mem_cons_self
    · obtain ⟨f, hf, rfl⟩ := List.mem_map.mp hmem
      obtain ⟨p, hp, m, rfl, -, ⟨hname, harity⟩, -⟩ := exists_left_of_forall₂ hbinds hf
      refine List.mem_cons_of_mem _ (List.mem_filterMap.mpr ⟨_, hp, ?_⟩)
      rw [hname, harity]
      rfl
  · obtain ⟨htable, hnone⟩ := hhost id hid
    rw [hcheck.other id fun he => hnew.fresh (he ▸ htable),
      hnew.other id fun he => hnew.fresh (he ▸ htable), hnone] at hmem
    cases hmem

theorem Node.descends {known : List (Name × Nat)} {n : Node} (hloop : n.isLoop = false)
    (hliteral : ∀ v t, n = .expr (.literal v t) → v.Hostless)
    (hcall : ∀ name arguments f t, n = .expr (.call name arguments f t) →
      (name, arguments.length) ∈ known) : n.Descends known := by
  cases n with
  | stmt s =>
    cases s with
    | whileLoop c b => cases hloop
    | _ => exact trivial
  | expr e =>
    cases e with
    | literal v t => exact hliteral v t rfl
    | call name arguments f t => exact hcall name arguments f t rfl
    | _ => exact trivial
  | _ => exact trivial

variable {s tree : Source} {σ₁ σ₂ : Store}

/-- The value of a field that passed the check calls `print` only. -/
theorem Pass.SourceTyped.field_descends
    (h : (host.checker σ).1.SourceTyped s tree (host.checker σ).2 σ₁ σ₂)
    (hhost : ∀ id ∈ host.tables, σ.HasTable id ∧ (σ.table id).routines = [])
    {p : FieldPlace} (hp : p ∈ tree.fields) :
    p.field?.isSome ∧ ∀ n ∈ p.walk, n.Descends (keys []) := by
  obtain ⟨before, after, he⟩ := List.append_of_mem hp
  obtain ⟨_, _, _, _, _, -, hplace, -⟩ := h.fields.split he
  obtain ⟨v, hv⟩ := hplace.adds
  obtain ⟨f, hf, -, -, hd⟩ := hv.bound
  refine ⟨Option.isSome_iff_exists.mpr ⟨f, hf⟩, fun n hn => ?_⟩
  have hwalk := hn
  rw [FieldPlace.walk_of_field? hf] at hn
  rcases List.mem_cons.mp hn with rfl | hn
  · exact trivial
  · obtain ⟨part, u, rfl, htyped⟩ := hd.exists_part hn
    refine Node.descends rfl ?_ ?_
    · rintro v t ⟨⟩
      exact htyped.hostless
    · rintro name arguments f t ⟨⟩
      obtain ⟨σ', r, hcheck, -, hr⟩ := Source.call_in_field h.fields
        (List.mem_flatMap.mpr ⟨p, hp, hwalk⟩)
      exact host.mem_keys hhost hcheck .nil hr

/-- A method that passed the check and neither loops nor calls itself calls what comes before it
only. -/
theorem Pass.SourceTyped.method_descends
    (h : (host.checker σ).1.SourceTyped s tree (host.checker σ).2 σ₁ σ₂)
    (hhost : ∀ id ∈ host.tables, σ.HasTable id ∧ (σ.table id).routines = [])
    (hloop : tree.Loopless) (hself : tree.CallsNoneItself) {before after : List MethodPlace}
    {p : MethodPlace} (he : tree.methods = before ++ p :: after) :
    p.method?.isSome ∧ ∀ n ∈ p.walk, n.Descends (keys before) := by
  have hp : p ∈ tree.methods := he ▸ List.mem_append_right _ List.mem_cons_self
  obtain ⟨m, rfl⟩ := h.methods.exists_method hp
  obtain ⟨_, _, _, _, _, -, hplace, -⟩ := h.methods.split he
  obtain ⟨_, f, ⟨⟩, ha⟩ := hplace.adds
  obtain ⟨_, _, _, -, -, -, -, -, -, hbody⟩ := ha.body
  refine ⟨rfl, fun n hn => ?_⟩
  have hwalk : n ∈ tree.walk := List.mem_cons_of_mem _
    (List.mem_append_right _ (List.mem_flatMap.mpr ⟨_, hp, hn⟩))
  refine Node.descends (hloop n hwalk) ?_ ?_
  · rintro v t rfl
    rcases List.mem_cons.mp hn with hn | hn
    · cases hn
    · cases hbody.near hn with
      | expr _ _ htyped => exact htyped.hostless
  · rintro name arguments g t rfl
    rcases List.mem_cons.mp hn with hn' | hn'
    · cases hn'
    · obtain ⟨σ', fs, r, hcheck, hbinds, -, hr⟩ := Source.call_in_method h he hn'
      have hmem := host.mem_keys hhost hcheck hbinds hr
      have hne : (name, arguments.length) ≠ (m.name, m.parameters.length) := fun hkey => by
        have hcalls := hself _ hp (m.name, m.parameters.length) rfl _ hn
        simp [Node.calls, hkey] at hcalls
      rw [keys, List.filterMap_append, ← List.cons_append] at hmem
      refine (List.mem_append.mp hmem).resolve_right fun hlast => hne ?_
      exact List.mem_singleton.mp hlast

/-- **In an accepted source that neither loops nor has a method that calls itself, every call goes
back**, if the host provides no functions. -/
theorem Source.descends_of_accepted (h : (s.analyze host σ).verdict = .ok ())
    (hhost : ∀ id ∈ host.tables, σ.HasTable id ∧ (σ.table id).routines = [])
    (hloop : s.Loopless) (hself : s.CallsNoneItself) : s.Descends := by
  obtain ⟨σ₁, σ₂, _, htyped, -⟩ := Pass.check_typed h
  have hbare : s.bare = (s.analyze host σ).tree.bare := ((host.checker σ).1.check_bare s _).symm
  refine Descends.of_bare hbare.symm ⟨fun p hp => ?_, fun before p after he => ?_⟩
  · exact htyped.field_descends hhost hp
  · exact htyped.method_descends hhost (hloop.of_bare hbare) (hself.of_bare hbare) he

end Accepted

end Parlance
