/-
Two evaluations side by side.

A pairing says which stores, passes and variables of one run correspond to those of another.
Two evaluations go together under it when, begun in stores that correspond, both come to
answers that are related, or both stop for faults that correspond, or both run out of fuel, and
leave stores that correspond.  A pairing may excuse faults of the first run: of a first run that
stops for one nothing is said.

A pairing is lawful when looking up and changing what corresponds goes together.  There is one
rule for each way in which evaluations are put together.
-/
import Parlance.Proofs.Paired.Frames

namespace Parlance

/-- What corresponds in two runs. -/
structure Pairing where
  stores : Store → Store → Prop
  passes : Pass → Pass → Prop
  cells : Variable → Variable → Prop
  /-- The values that occur. -/
  sort : Value → Prop
  faults : Fault → Fault → Prop
  excused : Fault → Prop
  /-- What functions of the host may do. -/
  hosted : HostAction → Prop

namespace Pairing

variable (w : Pairing)

/-! ### What corresponds -/

/-- Results of reading the stores. -/
inductive Reads {α β : Type} (R : α → β → Prop) :
    Except BindingFault α → Except BindingFault β → Prop
  | ok {a : α} {b : β} (h : R a b) : Reads R (.ok a) (.ok b)
  | fault {f g : BindingFault} (h : w.faults (.binding f) (.binding g)) :
      Reads R (.error f) (.error g)
  | excused {f : BindingFault} {r : Except BindingFault β} (h : w.excused (.binding f)) :
      Reads R (.error f) r

/-- Results of something that does not read the stores. -/
inductive Lifts {α β : Type} (R : α → β → Prop) : Except Fault α → Except Fault β → Prop
  | ok {a : α} {b : β} (h : R a b) : Lifts R (.ok a) (.ok b)
  | fault {f g : Fault} (h : w.faults f g) : Lifts R (.error f) (.error g)

/-- The renaming only changes faults into such as correspond. -/
def Renames (ν : Renaming) : Prop :=
  ∀ n, w.faults (.binding (.duplicateName n)) (.binding (.duplicateName (ν.name n)))

/-- What matters to a run of the code: no annotation, and no type that a declaration names. -/
def code : Likeness where
  literals := w.sort
  renamings := w.Renames
  typeNames _ _ _ := True
  types _ _ := True
  bound _ _ := True
  callee _ _ := True

/-- What functions do that are called with so many arguments. -/
inductive Implements (count : Nat) : Option Implementation → Option Implementation → Prop
  | none : Implements count none none
  | print : Implements count (some .print) (some .print)
  | host {action : HostAction} {traced : Bool} (h : w.hosted action) :
      Implements count (some (.host action traced)) (some (.host action traced))
  | method {m m' : Method} {p p' : Pass} {ν : Renaming} (passes : w.passes p p')
      (renames : w.Renames ν) (parameters : m'.parameters = m.parameters.map ν.name)
      (own : ∀ n, ν.own n → n ∈ m.parameters ∧ m.parameters.length ≤ count)
      (body : List.Forall₂ (Stmt.Alike w.code ν) m.body m'.body) :
      Implements count (some (.method m p)) (some (.method m' p'))

/-- Functions that are called with so many arguments. -/
structure Routines (count : Nat) (r r' : Routine) : Prop where
  name : r.function.name = r'.function.name
  implements : w.Implements count r.implementation? r'.implementation?

/-- Variables of tables, with the same value. -/
structure Slots (s s' : Slot) : Prop where
  value : s.value = s'.value
  sort : w.sort s.value
  var : w.cells s.var s'.var

/-- The same value. -/
def Same (v v' : Value) : Prop :=
  v = v' ∧ w.sort v

/-- The same values. -/
def SameAll (vs vs' : List Value) : Prop :=
  vs = vs' ∧ ∀ v ∈ vs, w.sort v

/-! ### Results -/

/-- How two evaluations end. -/
inductive Results {α β : Type} (R : α → β → Prop) :
    EStateM.Result Stop Store α → EStateM.Result Stop Store β → Prop
  | ok {a : α} {b : β} {σ τ : Store} (h : R a b) (hs : w.stores σ τ) :
      Results R (.ok a σ) (.ok b τ)
  | fault {f g : Fault} {σ τ : Store} (h : w.faults f g) (hs : w.stores σ τ) :
      Results R (.error (.fault f) σ) (.error (.fault g) τ)
  | outOfFuel {σ τ : Store} (hs : w.stores σ τ) :
      Results R (.error .outOfFuel σ) (.error .outOfFuel τ)
  | excused {f : Fault} {σ : Store} {r : EStateM.Result Stop Store β} (h : w.excused f) :
      Results R (.error (.fault f) σ) r

/-- Two evaluations go together from any stores that correspond. -/
def Together {α β : Type} (R : α → β → Prop) (x : Eval α) (y : Eval β) : Prop :=
  ∀ ⦃σ τ⦄, w.stores σ τ → w.Results R (x σ) (y τ)

/-- Looking up and changing what corresponds goes together. -/
structure Lawful : Prop where
  plain : ∀ v : Value, (∀ o, v ≠ .object o) → w.sort v
  fault : ∀ f, w.faults f f
  write : ∀ t, w.Together (fun _ _ => True) (Eval.write t) (Eval.write t)
  report : ∀ {σ τ} r, w.stores σ τ → w.stores (σ.report r) (τ.report r)
  setValue : ∀ {σ τ v v' x}, w.stores σ τ → w.cells v v' → w.sort x →
    w.stores (σ.setValue v x) (τ.setValue v' x)
  declareVariable : ∀ {σ τ p p' x} n, w.stores σ τ → w.passes p p' → w.sort x →
    w.Reads (fun a a' => w.stores a.2 a'.2)
      (σ.declareVariable p.scope.top n none x none) (τ.declareVariable p'.scope.top n none x none)
  declareMethod : ∀ {σ τ p p' ν m m'} (types : List (Option Ty)) (result : Option Ty),
    w.stores σ τ → w.passes p p' → w.Renames ν → m.Alike w.code ν m' →
    types.length = m.parameters.length →
    w.Reads (fun a a' => w.stores a.2 a'.2)
      (σ.declareFunction p.scope.top m.name types result (some (.method m p)) none)
      (τ.declareFunction p'.scope.top m.name types result (some (.method m' p')) none)
  scopeVariable : ∀ {σ τ p p'} n, w.stores σ τ → w.passes p p' →
    w.Reads w.Slots (σ.scopeVariable p.scope n) (τ.scopeVariable p'.scope n)
  scopeFunction : ∀ {σ τ p p'} n count, w.stores σ τ → w.passes p p' →
    w.Reads (w.Routines count) (σ.scopeFunction p.scope n count)
      (τ.scopeFunction p'.scope n count)
  memberVariable : ∀ {σ τ p p' v} n, w.stores σ τ → w.passes p p' → w.sort v →
    w.Reads w.Slots (σ.membersOfValue p.registry v >>= fun id => σ.memberVariable id n)
      (τ.membersOfValue p'.registry v >>= fun id => τ.memberVariable id n)
  memberFunction : ∀ {σ τ p p' v} n count, w.stores σ τ → w.passes p p' → w.sort v →
    w.Reads (w.Routines count)
      (σ.membersOfValue p.registry v >>= fun id => σ.memberFunction id n count)
      (τ.membersOfValue p'.registry v >>= fun id => τ.memberFunction id n count)
  host : ∀ {vs} (action : HostAction), w.hosted action → (∀ v ∈ vs, w.sort v) →
    w.Together w.Same (Eval.host action vs) (Eval.host action vs)

variable {w} {α β γ δ : Type} {R : α → β → Prop} {S : γ → δ → Prop}

theorem Lawful.nil (hw : w.Lawful) : w.sort .nil :=
  hw.plain _ fun _ h => Value.noConfusion h

theorem Lawful.boolean (hw : w.Lawful) (b : Bool) : w.sort (.boolean b) :=
  hw.plain _ fun _ h => Value.noConfusion h

theorem Lawful.integer (hw : w.Lawful) (n : Int) : w.sort (.integer n) :=
  hw.plain _ fun _ h => Value.noConfusion h

/-! ### One rule for each way of putting evaluations together -/

theorem Together.mono {R' : α → β → Prop} {x : Eval α} {y : Eval β} (h : w.Together R x y)
    (hR : ∀ a b, R a b → R' a b) : w.Together R' x y := by
  intro σ τ hs
  have := h hs
  generalize x σ = r at this
  generalize y τ = r' at this
  cases this with
  | ok h hs => exact .ok (hR _ _ h) hs
  | fault h hs => exact .fault h hs
  | outOfFuel hs => exact .outOfFuel hs
  | excused h => exact .excused h

theorem together_pure {a : α} {b : β} (h : R a b) : w.Together R (pure a) (pure b) :=
  fun _ _ hs => .ok h hs

theorem together_throw {f g : Fault} (h : w.faults f g) :
    w.Together R (throw (.fault f)) (throw (.fault g)) :=
  fun _ _ hs => .fault h hs

theorem together_outOfFuel : w.Together R (throw .outOfFuel) (throw .outOfFuel) :=
  fun _ _ hs => .outOfFuel hs

theorem Together.bind {x : Eval α} {y : Eval β} {f : α → Eval γ} {g : β → Eval δ}
    (hxy : w.Together R x y) (hfg : ∀ a b, R a b → w.Together S (f a) (g b)) :
    w.Together S (x >>= f) (y >>= g) := by
  intro σ τ hs
  have h := hxy hs
  cases hx : x σ with
  | ok a σ' =>
    rw [hx] at h
    cases hy : y τ with
    | ok b τ' =>
      rw [hy] at h
      cases h with
      | ok h hs => rw [Eval.bind_apply hx, Eval.bind_apply hy]; exact hfg a b h hs
    | error s τ' =>
      rw [hy] at h
      cases h
  | error s σ' =>
    rw [hx] at h
    rw [Eval.bind_error hx]
    cases hy : y τ with
    | ok b τ' =>
      rw [hy] at h
      cases h with
      | excused h => exact .excused h
    | error s' τ' =>
      rw [hy] at h
      rw [Eval.bind_error hy]
      cases h with
      | fault h hs => exact .fault h hs
      | outOfFuel hs => exact .outOfFuel hs
      | excused h => exact .excused h

theorem together_lift {r : Except Fault α} {r' : Except Fault β} (h : w.Lifts R r r') :
    w.Together R (Eval.lift r) (Eval.lift r') := by
  cases h with
  | ok h => exact together_pure h
  | fault h => exact together_throw h

/-- The result of something that both evaluations do alike. -/
theorem Lawful.lift (hw : w.Lawful) {R : α → α → Prop} {r : Except Fault α}
    (h : ∀ a, r = .ok a → R a a) : w.Together R (Eval.lift r) (Eval.lift r) := by
  refine together_lift ?_
  cases r with
  | ok a => exact .ok (h a rfl)
  | error f => exact .fault (hw.fault f)

theorem together_read {r : Store → Except BindingFault α} {r' : Store → Except BindingFault β}
    (h : ∀ σ τ, w.stores σ τ → w.Reads R (r σ) (r' τ)) :
    w.Together R (Eval.read r) (Eval.read r') := by
  intro σ τ hs
  change w.Results R (Eval.lift ((r σ).mapError .binding) σ)
    (Eval.lift ((r' τ).mapError .binding) τ)
  have h := h σ τ hs
  generalize r σ = a at h
  generalize r' τ = b at h
  cases h with
  | ok h => exact .ok h hs
  | fault h => exact .fault h hs
  | excused h => exact .excused h

theorem together_modify {f g : Store → Store} (h : ∀ σ τ, w.stores σ τ → w.stores (f σ) (g τ)) :
    w.Together (fun _ _ => True) (modify f : Eval Unit) (modify g : Eval Unit) :=
  fun σ τ hs => .ok trivial (h σ τ hs)

/-- Writing to streams that refuse the same texts. -/
theorem together_write (hfault : w.faults .encoding .encoding)
    (hencoding : ∀ {σ τ}, w.stores σ τ → τ.encoding = σ.encoding) {t : Text}
    (hwrite : ∀ {σ τ}, w.stores σ τ → w.stores (σ.write t) (τ.write t)) :
    w.Together (fun _ _ => True) (Eval.write t) (Eval.write t) := by
  intro σ τ hs
  by_cases ht : σ.encoding.takes t = true
  · rw [Eval.write_taken ht, Eval.write_taken (hencoding hs ▸ ht)]
    exact .ok trivial (hwrite hs)
  · rw [Eval.write_refused ht, Eval.write_refused (hencoding hs ▸ ht)]
    exact .fault hfault hs

/-- Reading twice from one store. -/
theorem read_read {r : Store → Except BindingFault α} {q : α → Store → Except BindingFault β}
    {f : β → Eval γ} : (Eval.read r >>= fun a => Eval.read (q a) >>= f)
      = Eval.read (fun σ => r σ >>= fun a => q a σ) >>= f := by
  funext σ
  have read {δ : Type} (r : Store → Except BindingFault δ) :
      Eval.read r σ = Eval.lift ((r σ).mapError .binding) σ := rfl
  cases hr : r σ with
  | error e =>
    have h : Eval.read r σ = .error (.fault (.binding e)) σ := by
      rw [read, hr]
      rfl
    have h' : Eval.read (fun σ => r σ >>= fun a => q a σ) σ
        = .error (.fault (.binding e)) σ := by
      rw [read, hr]
      rfl
    rw [Eval.bind_error h, Eval.bind_error h']
  | ok a =>
    have h' : Eval.read (fun σ => r σ >>= fun a => q a σ) σ = Eval.read (q a) σ := by
      rw [read, hr]
      rfl
    rw [Eval.bind_apply (Eval.read_ok hr)]
    simp only [bind, EStateM.bind] at h' ⊢
    rw [h']

/-! ### One store had from the other -/

/-- The pairing of a run with one that differs in its store alone, and in a way that is known. -/
def along (t : Store → Store) : Pairing where
  stores σ τ := τ = t σ
  passes := Eq
  cells := Eq
  sort _ := True
  faults := Eq
  excused _ := False
  hosted _ := True

/-- One evaluation, and then evaluations that go together. -/
theorem together_bind_same {x : Eval α} {f : α → Eval γ} {g : α → Eval δ}
    (h : ∀ a, (along id).Together S (f a) (g a)) : (along id).Together S (x >>= f) (x >>= g) := by
  have same : (along id).Together Eq x x := by
    intro σ τ hτ
    rw [show τ = σ from hτ]
    cases x σ with
    | ok a τ => exact .ok rfl rfl
    | error s τ =>
      cases s with
      | fault f => exact .fault rfl rfl
      | outOfFuel => exact .outOfFuel rfl
  exact same.bind fun a _ hab => hab ▸ h a

/-- Evaluations that go together are the same up to what is made of the answer. -/
theorem eq_of_together {x : Eval α} {y : Eval β} {f : β → α}
    (h : (along id).Together (fun a b => a = f b) x y) : x = y >>= fun b => pure (f b) := by
  funext σ
  have hσ : (along id).Results (fun a b => a = f b) (x σ) (y σ) := h rfl
  cases hy : y σ with
  | ok b τ =>
    rw [hy] at hσ
    rw [Eval.bind_apply hy]
    generalize x σ = r at hσ ⊢
    cases hσ with
    | ok hab hτ =>
      rw [hab, show τ = _ from hτ]
      rfl
    | excused h => exact h.elim
  | error s τ =>
    rw [hy] at hσ
    rw [Eval.bind_error hy]
    generalize x σ = r at hσ ⊢
    cases hσ with
    | fault hf hτ => rw [show _ = _ from hf, show τ = _ from hτ]; rfl
    | outOfFuel hτ => rw [show τ = _ from hτ]; rfl
    | excused h => exact h.elim

end Pairing

end Parlance
