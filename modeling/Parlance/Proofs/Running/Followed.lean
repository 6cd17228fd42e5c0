/-
One run follows another, with as much fuel as it takes.

Code that does the same in other steps spends other amounts of fuel, so its runs cannot be compared
amount by amount.  An evaluation is followed by another if, whatever has become of the first, there
is an amount of fuel with which the second comes to the same: it ends the same, in a store that is
the same up to what methods are, or it has written what the first had written when its fuel ran out.
More fuel does not change this, so what follows in each of its parts follows as a whole, with the
largest of the amounts that its parts take.

There is one rule for each way in which evaluations are put together, and one for amounts of fuel:
what takes some steps more follows as well.
-/
import Parlance.Program
import Parlance.Proofs.Running.Fuel
import Parlance.Proofs.Store.Revised

namespace Parlance

/-! ### Stores -/

/-- The stores are the same once their methods are revised. -/
def Store.SameUpTo (μ : Method → Method) (σ τ : Store) : Prop :=
  σ.revise μ = τ.revise μ

/-- The functions are the same once their methods are revised. -/
def Routine.SameUpTo (μ : Method → Method) (r s : Routine) : Prop :=
  r.revise μ = s.revise μ

namespace Store.SameUpTo

variable {μ : Method → Method} {σ τ : Store}

theorem refl (σ : Store) : σ.SameUpTo μ σ :=
  rfl

theorem symm (h : σ.SameUpTo μ τ) : τ.SameUpTo μ σ :=
  Eq.symm h

theorem sameValues (h : σ.SameUpTo μ τ) : σ.SameValues τ :=
  sameValues_of_revise h

theorem modify {f : Store → Store} (hf : ∀ σ, (f σ).revise μ = f (σ.revise μ))
    (h : σ.SameUpTo μ τ) : (f σ).SameUpTo μ (f τ) := by
  rw [SameUpTo, hf, hf, h]

end Store.SameUpTo

namespace Eval

open EStateM (Result)

variable {α β : Type} {μ : Method → Method} {Q : α → α → Prop} {S : β → β → Prop}

/-! ### Results -/

/-- The second result is the first one, or the first one is for want of fuel and nothing has been
written there that is not written in the second as well. -/
inductive Nears (μ : Method → Method) (Q : α → α → Prop) :
    Result Stop Store α → Result Stop Store α → Prop
  | answer {a b : α} {σ τ : Store} (h : Q a b) (hs : σ.SameUpTo μ τ) :
      Nears μ Q (.ok a σ) (.ok b τ)
  | fault {f : Fault} {σ τ : Store} (hs : σ.SameUpTo μ τ) :
      Nears μ Q (.error (.fault f) σ) (.error (.fault f) τ)
  | short {σ : Store} {r : Result Stop Store α} (h : σ.Writes (stored r)) :
      Nears μ Q (.error .outOfFuel σ) r

namespace Nears

variable {r r' r'' : Result Stop Store α}

theorem writes (h : Nears μ Q r r') : (stored r).Writes (stored r') := by
  cases h with
  | answer _ hs => exact .of_eq hs.sameValues.output
  | fault hs => exact .of_eq hs.sameValues.output
  | short h => exact h

theorem endsSame (h : Nears μ Eq r r') (hr : Ended r) : EndsSame (Store.SameUpTo μ) r r' := by
  cases h with
  | answer h hs =>
    cases h
    exact .answer hs
  | fault hs => exact .stop hs
  | short _ => exact absurd rfl (hr _)

/-- With more fuel for the second one nothing changes. -/
theorem more (h : Nears μ Q r r') (h' : Approximates r' r'') : Nears μ Q r r'' := by
  cases h with
  | answer h hs =>
    rw [h'.eq_of_ended nofun]
    exact .answer h hs
  | fault hs =>
    rw [h'.eq_of_ended nofun]
    exact .fault hs
  | short h => exact .short (h.trans h'.writes)

end Nears

/-! ### One rule for each way of putting evaluations together -/

/-- From stores that are the same up to methods, the second evaluation comes to what the first comes
to, if it is given enough fuel. More fuel is never to its harm. -/
structure Follows (μ : Method → Method) (Q : α → α → Prop) (x : Eval α) (y : Nat → Eval α) :
    Prop where
  near : ∀ ⦃σ τ⦄, σ.SameUpTo μ τ → ∃ m, Nears μ Q (x σ) (y m τ)
  rises : ∀ {n m}, n ≤ m → Below (y n) (y m)

/-- What takes no fuel at all. -/
theorem follows_of_nears {x y : Eval α} (h : ∀ ⦃σ τ⦄, σ.SameUpTo μ τ → Nears μ Q (x σ) (y τ))
    (hy : Proceeds y) : Follows μ Q x fun _ => y :=
  ⟨fun _ _ hs => ⟨0, h hs⟩, fun _ => hy.below⟩

theorem follows_pure {a b : α} (h : Q a b) : Follows μ Q (pure a) fun _ => pure b :=
  follows_of_nears (fun _ _ hs => .answer h hs) (below_pure b).proceeds

theorem follows_throw (f : Fault) :
    Follows μ Q (throw (.fault f) : Eval α) fun _ => throw (.fault f) :=
  follows_of_nears (fun _ _ hs => .fault hs) (below_throw _).proceeds

theorem follows_outOfFuel {y : Nat → Eval α} (hy : ∀ {n m}, n ≤ m → Below (y n) (y m)) :
    Follows μ Q (throw .outOfFuel) y := by
  refine ⟨fun σ τ hs => ⟨0, .short ?_⟩, hy⟩
  exact (Store.Writes.of_eq hs.sameValues.output).trans ((hy (Nat.le_refl 0)).proceeds τ)

/-- What takes some steps more follows as well. -/
theorem Follows.later {x : Eval α} {y : Nat → Eval α} (k : Nat)
    (h : Follows μ Q x fun m => y (m + k)) (hy : ∀ {n m}, n ≤ m → Below (y n) (y m)) :
    Follows μ Q x y := by
  refine ⟨fun σ τ hs => ?_, hy⟩
  obtain ⟨m, hm⟩ := h.near hs
  exact ⟨m + k, hm⟩

theorem Follows.bind {x : Eval α} {y : Nat → Eval α} {f : α → Eval β} {g : α → Nat → Eval β}
    (h : Follows μ Q x y) (hQ : ∀ a, Q a a) (hfg : ∀ a b, Q a b → Follows μ S (f a) (g b)) :
    Follows μ S (x >>= f) fun m => y m >>= fun b => g b m := by
  have rises {n m : Nat} (hnm : n ≤ m) :
      Below (y n >>= fun b => g b n) (y m >>= fun b => g b m) :=
    (h.rises hnm).bind fun b => (hfg b b (hQ b)).rises hnm
  refine ⟨fun σ τ hs => ?_, rises⟩
  obtain ⟨m, hm⟩ := h.near hs
  cases hx : x σ with
  | ok a σ' =>
    rw [hx] at hm
    obtain ⟨b, τ', hy, hab, hs'⟩ : ∃ b τ', y m τ = .ok b τ' ∧ Q a b ∧ σ'.SameUpTo μ τ' := by
      generalize y m τ = r at hm
      cases hm with
      | answer hab hs' => exact ⟨_, _, rfl, hab, hs'⟩
    -- The rest takes its own amount of fuel, and the larger one of the two is enough for both.
    obtain ⟨k, hk⟩ := (hfg a b hab).near hs'
    refine ⟨max m k, ?_⟩
    have first : y (max m k) τ = .ok b τ' :=
      (((h.rises (Nat.le_max_left m k)).near τ).eq_of_ended (hy ▸ nofun)).trans hy
    rw [bind_apply hx, bind_apply first]
    exact hk.more (((hfg a b hab).rises (Nat.le_max_right m k)).near τ')
  | error s σ' =>
    rw [hx] at hm
    refine ⟨m, ?_⟩
    rw [bind_error hx]
    cases s with
    | fault e =>
      generalize hr : y m τ = r at hm
      cases hm with
      | fault hs' =>
        rw [bind_error hr]
        exact .fault hs'
    | outOfFuel =>
      refine .short (hm.writes.trans ?_)
      cases hr : y m τ with
      | ok b τ' =>
        rw [bind_apply hr]
        exact ((hfg b b (hQ b)).rises (Nat.le_refl m)).proceeds τ'
      | error s' τ' =>
        rw [bind_error hr]
        exact .refl τ'

/-- Where the answers are the same. -/
theorem Follows.next {x : Eval α} {y : Nat → Eval α} {f : α → Eval β} {g : α → Nat → Eval β}
    (h : Follows μ Eq x y) (hfg : ∀ a, Follows μ S (f a) (g a)) :
    Follows μ S (x >>= f) fun m => y m >>= fun a => g a m :=
  h.bind (fun _ => rfl) fun a _ hab => hab ▸ hfg a

/-! ### What evaluations are made of -/

theorem follows_lift (r : Except Fault α) : Follows μ Eq (lift r) fun _ => lift r := by
  cases r with
  | ok a => exact follows_pure rfl
  | error f => exact follows_throw f

/-- What is read, up to what revising methods makes of it. -/
theorem follows_read_map {r : Store → Except BindingFault α} {t : α → α}
    (hr : ∀ σ, r (σ.revise μ) = (r σ).map t) :
    Follows μ (fun a b => t a = t b) (read r) fun _ => read r := by
  refine follows_of_nears (fun σ τ hs => ?_) (below_read r).proceeds
  have same : (r σ).map t = (r τ).map t := by rw [← hr, ← hr, hs]
  change Nears μ _ (lift ((r σ).mapError .binding) σ) (lift ((r τ).mapError .binding) τ)
  cases hσ : r σ <;> cases hτ : r τ <;> rw [hσ, hτ] at same
  · cases same
    exact .fault hs
  · cases same
  · cases same
  · exact .answer (Except.ok.inj same) hs

/-- What is read does not depend on methods. -/
theorem follows_read {r : Store → Except BindingFault α} (hr : ∀ σ, r (σ.revise μ) = r σ) :
    Follows μ Eq (read r) fun _ => read r :=
  follows_read_map (t := id) fun σ => by rw [hr]; cases r σ <;> rfl

/-- A function is read, and both go on with functions that are the same up to methods. -/
theorem follows_read_routine {r : Store → Except BindingFault Routine}
    (hr : ∀ σ, r (σ.revise μ) = (r σ).map (Routine.revise μ)) {f : Routine → Eval β}
    {g : Routine → Nat → Eval β} (hfg : ∀ q q', q.SameUpTo μ q' → Follows μ S (f q) (g q')) :
    Follows μ S (read r >>= f) fun m => read r >>= fun q => g q m :=
  (follows_read_map hr).bind (fun _ => rfl) hfg

theorem follows_modify {f : Store → Store} (hf : ∀ σ, (f σ).revise μ = f (σ.revise μ))
    (hw : ∀ σ : Store, σ.Writes (f σ)) :
    Follows μ Eq (modify f : Eval Unit) fun _ => modify f :=
  follows_of_nears (fun _ _ hs => .answer rfl (hs.modify hf)) (below_modify hw).proceeds

theorem follows_write (t : Text) : Follows μ Eq (write t) fun _ => write t := by
  refine follows_of_nears (fun σ τ hs => ?_) (below_write t).proceeds
  have stream := hs.sameValues.encoding
  by_cases ht : σ.encoding.takes t = true
  · rw [write_taken ht, write_taken (stream ▸ ht)]
    exact .answer rfl (hs.modify (f := (·.write t)) fun _ => rfl)
  · rw [write_refused ht, write_refused (stream ▸ ht)]
    exact .fault hs

theorem follows_report (r : LogRecord) : Follows μ Eq (report r) fun _ => report r :=
  follows_modify (fun _ => rfl) fun σ => .refl σ

theorem follows_setValue (x : Variable) (v : Value) :
    Follows μ Eq (modify (·.setValue x v) : Eval Unit) fun _ => modify (·.setValue x v) :=
  follows_modify (fun σ => σ.revise_setValue x v) (below_setValue x v).proceeds

theorem follows_perform (deed : Deed) :
    Follows μ Eq deed.perform fun _ => deed.perform := by
  induction deed with
  | answer v => exact follows_pure rfl
  | fail cause => exact follows_throw cause
  | look id name next ih =>
    refine ⟨fun σ τ hs => ?_, fun _ => below_perform _⟩
    simp only [perform_look, hs.sameValues.slot? id name]
    exact (ih _).near hs
  | set id name v next ih =>
    have sets : Follows μ Eq (modify (·.setNamed id name v) : Eval Unit)
        fun _ => modify (·.setNamed id name v) :=
      follows_modify (fun σ => σ.revise_setNamed id name v) fun σ =>
        (Store.Changes.setNamed σ id name v : σ.Changes True _).writes
    exact sets.next fun _ => ih
  | write t next ih => exact (follows_write t).next fun _ => ih

theorem follows_host (action : HostAction) (vs : List Value) :
    Follows μ Eq (host action vs) fun _ => host action vs :=
  follows_perform _

/-- The result of finding an answer together with the store after it. -/
def found (r : Except Fault (α × Store)) (σ : Store) : Result Stop Store α :=
  match r with
  | .ok (a, τ) => .ok a τ
  | .error f => .error (.fault f) σ

/-- Both find the same, and stores that are the same up to methods. -/
theorem follows_of_found {x y : Eval α} {r r' : Store → Except Fault (α × Store)}
    (hx : ∀ σ, x σ = found (r σ) σ) (hy : ∀ σ, y σ = found (r' σ) σ)
    (h : ∀ σ τ, σ.SameUpTo μ τ → (r σ).map (Prod.map id (Store.revise μ))
      = (r' τ).map (Prod.map id (Store.revise μ)))
    (hw : ∀ {σ a τ}, r' σ = .ok (a, τ) → σ.Writes τ) : Follows μ Eq x fun _ => y := by
  refine follows_of_nears (fun σ τ hs => ?_) fun σ => ?_
  · have same := h σ τ hs
    rw [hx, hy]
    generalize r σ = q at same ⊢
    generalize r' τ = q' at same ⊢
    rcases q with f | ⟨a, σ'⟩ <;> rcases q' with g | ⟨b, τ'⟩
    · cases same
      exact .fault hs
    · cases same
    · cases same
    · obtain ⟨hab, hs'⟩ := Prod.mk.inj (Except.ok.inj same)
      exact .answer hab hs'
  · rw [hy]
    cases hr : r' σ with
    | ok a => exact hw hr
    | error f => exact .refl σ

/-- Declaring reads what the store is to be. -/
theorem follows_declaration {r r' : Store → Except BindingFault (α × Store)}
    (h : ∀ σ τ, σ.SameUpTo μ τ → (r σ).map (Prod.map id (Store.revise μ))
      = (r' τ).map (Prod.map id (Store.revise μ)))
    (hw : ∀ {σ a τ}, r' σ = .ok (a, τ) → σ.Writes τ) {x : Eval β} {y : Nat → Eval β}
    (hxy : Follows μ S x y) :
    Follows μ S (read r >>= fun a => set a.2 >>= fun _ => x)
      fun m => read r' >>= fun a => set a.2 >>= fun _ => y m := by
  have declares (r : Store → Except BindingFault (α × Store)) (σ : Store) :
      (read r >>= fun a => set a.2 : Eval PUnit) σ
        = found (((r σ).mapError .binding).map fun a => (PUnit.unit, a.2)) σ := by
    change (lift ((r σ).mapError .binding) >>= _) σ = _
    cases r σ <;> rfl
  have declared : Follows μ Eq (read r >>= fun a => set a.2 : Eval PUnit)
      fun _ => read r' >>= fun a => set a.2 := by
    refine follows_of_found (declares r) (declares r') (fun σ τ hs => ?_) fun {σ c τ} hr => ?_
    · have same := h σ τ hs
      generalize r σ = q at same ⊢
      generalize r' τ = q' at same ⊢
      rcases q with f | ⟨a, σ'⟩ <;> rcases q' with g | ⟨a', τ'⟩
      · cases same
        rfl
      · cases same
      · cases same
      · obtain ⟨-, hs'⟩ := Prod.mk.inj (Except.ok.inj same)
        exact congrArg (fun υ => Except.ok (PUnit.unit, υ)) hs'
    · obtain ⟨⟨a, υ⟩, ha, heq⟩ := Except.map_ok.mp hr
      cases heq
      exact hw (Except.mapError_ok.mp ha)
  have both := declared.next fun _ => hxy
  simp only [bind_assoc] at both
  exact both

theorem follows_declare (pass : Pass) (locals : Locals) (name : Name) (v : Value) :
    Follows μ Eq (declare pass locals name v) fun _ => declare pass locals name v := by
  cases locals with
  | cons frame outer => exact (follows_lift _).next fun f => follows_pure rfl
  | nil =>
    refine follows_declaration (fun σ τ hs => ?_) (fun {σ a τ} h => ?_) (follows_pure rfl)
    · rw [← Store.declareVariable_revise, ← Store.declareVariable_revise, hs]
    · unfold Store.declareVariable at h
      split at h
      · cases h
      · cases h
        exact .refl σ

/-- Methods that are the same once they are revised are declared alike. -/
theorem follows_declareMethod (pass : Pass) {m m' : Method} (hm : μ m = μ m')
    (hname : m.name = m'.name) (hparameters : m.parameters.length = m'.parameters.length) :
    Follows μ Eq (pass.declareMethod m) fun _ => pass.declareMethod m' := by
  have implementation : (some (Implementation.method m pass)).map (Implementation.revise μ)
      = (some (Implementation.method m' pass)).map (Implementation.revise μ) :=
    congrArg (fun m => some (Implementation.method m pass)) hm
  unfold Pass.declareMethod
  rw [hname, hparameters]
  refine follows_declaration (fun σ τ hs => ?_) (fun {σ a τ} h => ?_) (follows_report _)
  · rw [← Store.declareFunction_revise, ← Store.declareFunction_revise, hs, implementation]
  · unfold Store.declareFunction at h
    split at h
    · cases h
    · cases h
      exact .refl σ

/-! ### Runs with all amounts of fuel -/

/-- Given any amount of fuel, two runs end the same, in stores that are related, and whatever one of
them has written at some time, the other has at some time. -/
structure RunsSame (R : Store → Store → Prop) (x y : Nat → Result Stop Store α) : Prop where
  ends : ∀ n, Ended (x n) → ∃ m, EndsSame R (x n) (y m)
  ended : ∀ m, Ended (y m) → ∃ n, EndsSame R (x n) (y m)
  writes : ∀ n, ∃ m, (stored (x n)).Writes (stored (y m))
  written : ∀ m, ∃ n, (stored (y m)).Writes (stored (x n))

theorem RunsSame.of_nears {x y : Nat → Result Stop Store α}
    (hxy : ∀ n, ∃ m, Nears μ Eq (x n) (y m)) (hyx : ∀ m, ∃ n, Nears μ Eq (y m) (x n)) :
    RunsSame (Store.SameUpTo μ) x y where
  ends n hn := by
    obtain ⟨m, h⟩ := hxy n
    exact ⟨m, h.endsSame hn⟩
  ended m hm := by
    obtain ⟨n, h⟩ := hyx m
    exact ⟨n, (h.endsSame hm).symm fun _ _ => Store.SameUpTo.symm⟩
  writes n := by
    obtain ⟨m, h⟩ := hxy n
    exact ⟨m, h.writes⟩
  written m := by
    obtain ⟨n, h⟩ := hyx m
    exact ⟨n, h.writes⟩

end Eval

end Parlance
