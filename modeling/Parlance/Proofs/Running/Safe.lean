/-
What an evaluation keeps, answers and stops for.

`Eval.Safe I E x σ Q` says of the evaluation `x` begun in the store `σ` that it leaves a
store with `I` in every case, that what it answers satisfies `Q`, and that a fault it
stops for satisfies `E`.  Running out of fuel is allowed everywhere, so a statement about
all amounts of fuel speaks of runs of any length and of those that never end.

There is one rule for each way in which the evaluator is put together.  The rule for a
sequence hands on the equation for the first part, since the second may depend on more
than what `Q` says.
-/
import Parlance.Evaluator.Source

namespace Parlance.Eval

variable {α β : Type} {I : Store → Prop} {E : Fault → Prop} {σ τ : Store} {Q R : α → Prop}

/-- From the store, answers satisfy `Q` together with the store they come with; where the
evaluation stops, the store satisfies `K` and a fault satisfies `E`. -/
def Ends (K : Store → Prop) (E : Fault → Prop) (x : Eval α) (σ : Store)
    (Q : α → Store → Prop) : Prop :=
  match x σ with
  | .ok a τ => Q a τ
  | .error (.fault f) τ => K τ ∧ E f
  | .error .outOfFuel τ => K τ

/-- From the store, `I` is kept, answers satisfy `Q`, and faults satisfy `E`. -/
def Safe (I : Store → Prop) (E : Fault → Prop) (x : Eval α) (σ : Store) (Q : α → Prop) : Prop :=
  Ends I E x σ fun a τ => I τ ∧ Q a

section Ends

variable {K : Store → Prop} {x : Eval α} {P : α → Store → Prop}

theorem Ends.ok {a : α} (h : Ends K E x σ P) (hx : x σ = .ok a τ) : P a τ := by
  simpa only [Ends, hx] using h

theorem Ends.fault {f : Fault} (h : Ends K E x σ P) (hx : x σ = .error (.fault f) τ) :
    K τ ∧ E f := by
  simpa only [Ends, hx] using h

/-- However the evaluation stops, `K` holds. -/
theorem Ends.kept {s : Stop} (h : Ends K E x σ P) (hx : x σ = .error s τ) : K τ := by
  cases s with
  | fault f => exact (h.fault hx).1
  | outOfFuel => simpa only [Ends, hx] using h

theorem Ends.mono {J : Store → Prop} {P' : α → Store → Prop} (h : Ends K E x σ P)
    (hK : ∀ τ, K τ → J τ) (hP : ∀ a τ, P a τ → P' a τ) : Ends J E x σ P' := by
  unfold Ends at h ⊢
  split at h
  · exact hP _ _ h
  · exact h.imp_left (hK _)
  · exact hK _ h

end Ends

theorem Safe.ok {x : Eval α} {a : α} (h : Safe I E x σ Q) (hx : x σ = .ok a τ) : I τ ∧ Q a :=
  Ends.ok h hx

theorem Safe.mono {x : Eval α} (h : Safe I E x σ Q) (hQ : ∀ a, Q a → R a) : Safe I E x σ R :=
  Ends.mono h (fun _ hI => hI) fun _ _ => And.imp_right (hQ _)

theorem bind_ok {x : Eval α} {f : α → Eval β} {b : β} :
    (x >>= f) σ = .ok b τ ↔ ∃ a ρ, x σ = .ok a ρ ∧ f a ρ = .ok b τ := by
  simp only [bind, EStateM.bind]
  cases x σ <;> simp [and_assoc]

theorem bind_apply {x : Eval α} {f : α → Eval β} {a : α} (h : x σ = .ok a τ) :
    (x >>= f) σ = f a τ := by
  simp only [bind, EStateM.bind, h]

theorem bind_error {x : Eval α} {f : α → Eval β} {s : Stop} (h : x σ = .error s τ) :
    (x >>= f) σ = .error s τ := by
  simp only [bind, EStateM.bind, h]

/-! ### Results without their stores -/

/-- What the evaluation answers, if it does. -/
def answer? (x : Eval α) (σ : Store) : Option α :=
  match x σ with
  | .ok a _ => some a
  | .error _ _ => none

/-- The store after the evaluation, however it ends. -/
def after (x : Eval α) (σ : Store) : Store :=
  match x σ with
  | .ok _ τ | .error _ τ => τ

/-- Why the evaluation stops, if it does. -/
def stop? (x : Eval α) (σ : Store) : Option Stop :=
  match x σ with
  | .ok _ _ => none
  | .error s _ => some s

theorem eq_of_answer? {x : Eval α} {a : α} (h : x.answer? σ = some a) :
    x σ = .ok a (x.after σ) := by
  unfold answer? at h
  unfold after
  split at h
  · next hx =>
    cases h
    rw [hx]
  · cases h

theorem exists_of_answer? {x : Eval α} {a : α} (h : x.answer? σ = some a) :
    ∃ τ, x σ = .ok a τ :=
  ⟨_, eq_of_answer? h⟩

theorem eq_of_stop? {x : Eval α} {s : Stop} (h : x.stop? σ = some s) :
    x σ = .error s (x.after σ) := by
  unfold stop? at h
  unfold after
  split at h
  · cases h
  · next hx =>
    cases h
    rw [hx]

theorem exists_of_stop? {x : Eval α} {s : Stop} (h : x.stop? σ = some s) :
    ∃ τ, x σ = .error s τ :=
  ⟨_, eq_of_stop? h⟩

theorem after_bind_ok {x : Eval α} {f : α → Eval β} {a : α} (h : x σ = .ok a τ) :
    (x >>= f).after σ = (f a).after τ := by
  rw [after, bind_apply h, after]

theorem after_bind_error {x : Eval α} {f : α → Eval β} {s : Stop} (h : x σ = .error s τ) :
    (x >>= f).after σ = τ := by
  rw [after, bind_error h]

theorem stop?_bind_ok {x : Eval α} {f : α → Eval β} {a : α} (h : x σ = .ok a τ) :
    (x >>= f).stop? σ = (f a).stop? τ := by
  rw [stop?, bind_apply h, stop?]

theorem stop?_bind_error {x : Eval α} {f : α → Eval β} {s : Stop} (h : x σ = .error s τ) :
    (x >>= f).stop? σ = some s := by
  rw [stop?, bind_error h]

/-! ### One rule for each way of putting evaluations together -/

theorem safe_pure {a : α} (hI : I σ) (h : Q a) : Safe I E (pure a) σ Q :=
  ⟨hI, h⟩

theorem safe_throw {f : Fault} (hI : I σ) (h : E f) : Safe I E (throw (.fault f) : Eval α) σ Q :=
  ⟨hI, h⟩

theorem safe_outOfFuel (hI : I σ) : Safe I E (throw .outOfFuel : Eval α) σ Q :=
  hI

theorem ends_bind {K : Store → Prop} {x : Eval α} {f : α → Eval β} {P : α → Store → Prop}
    {S : β → Store → Prop} (hx : Ends K E x σ P)
    (hf : ∀ a ρ, x σ = .ok a ρ → P a ρ → Ends K E (f a) ρ S) : Ends K E (x >>= f) σ S := by
  cases h : x σ with
  | ok a ρ => simpa only [Ends, bind_apply h] using hf a ρ h (hx.ok h)
  | error s ρ =>
    have he : (x >>= f) σ = .error s ρ := bind_error h
    cases s with
    | fault c => simpa only [Ends, he] using hx.fault h
    | outOfFuel => simpa only [Ends, he] using hx.kept h

theorem safe_bind {x : Eval α} {f : α → Eval β} {S : β → Prop} (hx : Safe I E x σ Q)
    (hf : ∀ a ρ, x σ = .ok a ρ → I ρ → Q a → Safe I E (f a) ρ S) : Safe I E (x >>= f) σ S :=
  ends_bind hx fun a ρ h hq => hf a ρ h hq.1 hq.2

/-- An evaluation that is known to come to an answer, and then another. -/
theorem ends_bind_of_ok {K : Store → Prop} {x : Eval α} {f : α → Eval β} {a : α}
    {S : β → Store → Prop} (hx : x σ = .ok a τ) (hf : Ends K E (f a) τ S) :
    Ends K E (x >>= f) σ S := by
  simpa only [Ends, bind_apply hx] using hf

/-- What a result is satisfies `Q`, or what it fails with satisfies `E`. -/
def Meets (E : Fault → Prop) (r : Except Fault α) (Q : α → Prop) : Prop :=
  match r with
  | .ok a => Q a
  | .error f => E f

theorem Meets.map {r : Except Fault α} {f : α → β} {S : β → Prop} (h : Meets E r Q)
    (hQ : ∀ a, Q a → S (f a)) : Meets E (r.map f) S := by
  cases r with
  | ok a => exact hQ a h
  | error c => exact h

theorem Meets.mono {r : Except Fault α} {S : α → Prop} (h : Meets E r Q)
    (hQ : ∀ a, Q a → S a) : Meets E r S := by
  cases r with
  | ok a => exact hQ a h
  | error c => exact h

theorem Meets.bind {r : Except Fault α} {f : α → Except Fault β} {S : β → Prop} (h : Meets E r Q)
    (hf : ∀ a, Q a → Meets E (f a) S) : Meets E (r >>= f) S := by
  cases r with
  | ok a => exact hf a h
  | error c => exact h

theorem meets_of_error {r : Except Fault α} (h : ∀ f, r = .error f → E f) :
    Meets E r fun a => r = .ok a := by
  cases r with
  | ok a => exact rfl
  | error f => exact h f rfl

theorem Meets.error {r : Except Fault α} {f : Fault} (h : Meets E r Q) (hr : r = .error f) :
    E f := by
  rw [hr] at h
  exact h

theorem safe_lift {r : Except Fault α} (hI : I σ) (h : Meets E r Q) : Safe I E (lift r) σ Q := by
  cases r with
  | ok a => exact ⟨hI, h⟩
  | error f => exact ⟨hI, h⟩

theorem read_ok {r : Store → Except BindingFault α} {a : α} (hr : r σ = .ok a) :
    read r σ = .ok a σ := by
  show lift ((r σ).mapError .binding) σ = _
  rw [hr]
  rfl

theorem safe_read {r : Store → Except BindingFault α} {a : α} (hI : I σ) (hr : r σ = .ok a) :
    Safe I E (read r) σ (· = a) := by
  have h : I σ ∧ a = a := ⟨hI, rfl⟩
  simpa only [Safe, Ends, read_ok hr] using h

/-- A reading that may fail, and then an evaluation in the same store. -/
theorem safe_bind_read {r : Store → Except BindingFault α} {f : α → Eval β} {S : β → Prop}
    (hI : I σ) (hr : ∀ c, r σ = .error c → E (.binding c))
    (hf : ∀ a, r σ = .ok a → Safe I E (f a) σ S) : Safe I E (read r >>= f) σ S := by
  cases h : r σ with
  | ok a => exact ends_bind_of_ok (read_ok h) (hf a h)
  | error c =>
    have hread : read r σ = .error (.fault (.binding c)) σ := by
      show lift ((r σ).mapError .binding) σ = _
      rw [h]
      rfl
    have hends : I σ ∧ E (.binding c) := ⟨hI, hr c h⟩
    simpa only [Safe, Ends, bind_error hread] using hends

theorem safe_modify {f : Store → Store} (h : I (f σ)) :
    Safe I E (modify f) σ fun _ => True :=
  ⟨h, trivial⟩

theorem write_taken {t : Text} (h : σ.encoding.takes t = true) :
    write t σ = .ok () (σ.write t) := by
  show (if σ.encoding.takes t then _ else _ : Eval Unit) σ = _
  rw [if_pos h]
  rfl

theorem write_refused {t : Text} (h : ¬σ.encoding.takes t = true) :
    write t σ = .error (.fault .encoding) σ := by
  show (if σ.encoding.takes t then _ else _ : Eval Unit) σ = _
  rw [if_neg h]
  rfl

theorem safe_write {t : Text} (hI : I σ) (h : I (σ.write t))
    (hE : ¬σ.encoding.takes t = true → E .encoding) : Safe I E (write t) σ fun _ => True := by
  have taken : I (σ.write t) ∧ True := ⟨h, trivial⟩
  by_cases ht : σ.encoding.takes t = true
  · simpa only [Safe, Ends, write_taken ht] using taken
  · simpa only [Safe, Ends, write_refused ht] using And.intro hI (hE ht)

/-- Looking up a variable is going on by the value that is found. -/
theorem perform_look (id : TableId) (name : Name) (next : Option Value → Deed) (σ : Store) :
    (Deed.look id name next).perform σ
      = (next (((σ.table id).slot? name).map Slot.value)).perform σ := rfl

/-- One evaluation after the other, each of which keeps what the next one needs. -/
theorem safe_forM {f : β → Eval Unit} {bs : List β}
    (h : ∀ b ∈ bs, ∀ τ, I τ → Safe I E (f b) τ fun _ => True) (hI : I σ) :
    Safe I E (bs.forM f) σ fun _ => True := by
  induction bs generalizing σ with
  | nil => exact safe_pure hI trivial
  | cons b bs ih =>
    obtain ⟨hb, hbs⟩ := List.forall_mem_cons.mp h
    exact safe_bind (hb σ hI) fun _ τ _ hτ _ => ih hbs hτ

/-! ### Answers alone -/

/-- When the evaluation comes to an answer, the store has `I` and the answer satisfies `Q`. Nothing
is said of where it stops. -/
def Gives (I : Store → Prop) (x : Eval α) (σ : Store) (Q : α → Prop) : Prop :=
  ∀ ⦃a τ⦄, x σ = .ok a τ → I τ ∧ Q a

theorem Gives.mono {x : Eval α} (h : Gives I x σ Q) (hQ : ∀ a, Q a → R a) : Gives I x σ R :=
  fun _ _ hx => (h hx).imp_right (hQ _)

theorem gives_pure {a : α} (hI : I σ) (h : Q a) : Gives I (pure a) σ Q := by
  intro b τ hb
  cases hb
  exact ⟨hI, h⟩

theorem gives_throw (s : Stop) : Gives I (throw s : Eval α) σ Q := by
  intro a τ h
  cases h

theorem Gives.bind {x : Eval α} {f : α → Eval β} {S : β → Prop} (hx : Gives I x σ Q)
    (hf : ∀ a ρ, I ρ → Q a → Gives I (f a) ρ S) : Gives I (x >>= f) σ S := by
  intro b τ h
  obtain ⟨a, ρ, ha, hb⟩ := bind_ok.mp h
  obtain ⟨hρ, hQ⟩ := hx ha
  exact hf a ρ hρ hQ hb

theorem gives_lift (hI : I σ) (r : Except Fault α) : Gives I (lift r) σ fun a => r = .ok a := by
  cases r with
  | ok a => exact gives_pure hI rfl
  | error f => exact gives_throw _

theorem gives_read (hI : I σ) (r : Store → Except BindingFault α) :
    Gives I (read r) σ fun a => r σ = .ok a := by
  intro a τ h
  obtain ⟨hτ, hr⟩ := gives_lift (I := (· = σ)) rfl ((r σ).mapError .binding) h
  exact ⟨hτ ▸ hI, by cases hs : r σ <;> rw [hs] at hr <;> cases hr; rfl⟩

theorem gives_modify {f : Store → Store} (h : I (f σ)) :
    Gives I (modify f) σ fun _ => True := by
  intro a τ hx
  cases hx
  exact ⟨h, trivial⟩

/-- Only where the text is taken there is an answer. -/
theorem write_ok {t : Text} {u : Unit} (h : write t σ = .ok u τ) :
    σ.encoding.takes t = true ∧ τ = σ.write t := by
  by_cases ht : σ.encoding.takes t = true
  · rw [write_taken ht] at h
    cases h
    exact ⟨ht, rfl⟩
  · rw [write_refused ht] at h
    cases h

theorem gives_write {t : Text} (h : I (σ.write t)) : Gives I (write t) σ fun _ => True := by
  intro a τ hx
  obtain ⟨-, rfl⟩ := write_ok hx
  exact ⟨h, trivial⟩

end Parlance.Eval
