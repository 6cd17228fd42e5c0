/-
What a host offers to a program.

A host gives a program a scope and a registry, and through these it gives it tables: those of the
scope, with variables and functions, and those with the members of the registered types.  The
program may set the variables and call the functions, and it may come by objects of the host.  None
of this is checked.  So what the host has to see to is said here: that its variables hold values of
their types, that its objects carry the members of theirs, and that its functions keep to their
signatures.

`Nil` is let through everywhere.  A variable may not have been given a value yet, and a method may
end without one.
-/
import Parlance.Proofs.Kinds.Holds
import Parlance.Proofs.Operators.Hostless
import Parlance.Proofs.Running.Added
import Parlance.Proofs.Running.Moment
import Parlance.Proofs.Store.Bindings

namespace Parlance

/-- The deed sets nothing, and what it answers is of the sort. -/
def Deed.OnlyAnswers (sort : Value → Prop) : Deed → Prop
  | answer v => sort v
  | fail _ => True
  | look _ _ next => ∀ found, (next found).OnlyAnswers sort
  | set .. => False
  | write _ next => next.OnlyAnswers sort

theorem Deed.onlyAnswers_given {sort : Value → Prop} {α : Type} {r : Except Fault α}
    {next : α → Deed} (h : ∀ a, (next a).OnlyAnswers sort) :
    (Deed.given r next).OnlyAnswers sort := by
  cases r with
  | ok a => exact h a
  | error f => exact trivial

/-- Such a deed keeps whatever writing keeps. -/
theorem Deed.OnlyAnswers.gives {sort : Value → Prop} {deed : Deed} (h : deed.OnlyAnswers sort)
    {I : Store → Prop} (hwrite : ∀ σ t, I σ → I (σ.write t)) {σ : Store} (hσ : I σ) :
    Eval.Gives I deed.perform σ sort := by
  induction deed generalizing σ with
  | answer v => exact Eval.gives_pure hσ h
  | fail cause => exact Eval.gives_throw _
  | look id name next ih =>
    rw [Eval.Gives, Eval.perform_look]
    exact ih _ (h _) hσ
  | set id name v next ih => exact h.elim
  | write t next ih =>
    exact (Eval.gives_write (hwrite σ t hσ)).bind fun _ τ hτ _ => ih h hτ

/-- What a host offers: the tables of its scope and a registry, in a store. -/
structure Premises where
  scope : List TableId
  registry : RegistryId
  store : Store

namespace Premises

variable (p : Premises)

/-- The type that is registered for a name. -/
def type? (name : Text) : Option Ty :=
  p.store.type? p.registry name

/-- The tables of the premises: those of the scope, and those of the members of the registered
types. -/
inductive Has : TableId → Prop
  | scope {id : TableId} (h : id ∈ p.scope) : Has id
  | members {t : Ty} (h : p.type? t.name = some t) : Has t.members

/-- The object carries the members of the type that is registered for its kind. -/
def Carries (o : Object) : Prop :=
  ∃ t, p.type? t.name = some t ∧ t.name = o.type.name ∧ o.members = t.members

/-- The value may stand in a place of that type. Of a place whose type is left open nothing is
said. -/
def Fits (t : Option Ty) (v : Value) : Prop :=
  ∀ u, t = some u → v = .nil ∨ u.admits v = true ∧ ∀ o, v = .object o → p.Carries o

/-- The store has the types, the variables and the functions of the premises. -/
structure Same (τ : Store) : Prop where
  registry : τ.registry p.registry = p.store.registry p.registry
  hasTable : ∀ id, p.Has id → τ.HasTable id
  vars : ∀ id, p.Has id → τ.vars id = p.store.vars id
  routines : ∀ id, p.Has id → (τ.table id).routines = (p.store.table id).routines

/-- Beside that, the variables hold values of their types. -/
structure Kept (τ : Store) : Prop extends p.Same τ where
  values : ∀ id, p.Has id → ∀ s ∈ (τ.table id).slots, p.Fits s.var.type s.value

/-- From that moment on nothing runs in a scope that has been made after the premises. -/
def Apart (m : Moment) : Prop :=
  ∀ m', Relation.ReflTransGen Leads m m' → p.store.HasTable m'.activation.pass.scope.top

/-- Called with these arguments, the function keeps to its signature: if it answers, then with a
value of its result type, and the premises are kept. It leaves tables that have been made later
alone, and runs nothing that belongs to them. -/
structure Keeps (r : Routine) (arguments : List Value) : Prop where
  answers : ∀ fuel τ, p.Kept τ →
    Eval.Gives p.Kept (invoke fuel r arguments) τ (p.Fits r.function.returnType)
  spares : ∀ fuel τ v τ', p.Kept τ → invoke fuel r arguments τ = .ok v τ' →
    ∀ id, ¬p.store.HasTable id → τ'.table id = τ.table id
  apart : ∀ fuel τ a m, p.Kept τ → Leads ⟨a, .invocation r arguments, fuel, τ⟩ m → p.Apart m

/-- What a program relies on. The functions of the scope are called with arguments of their
parameters' types. A member function is called with a value that has the member, which the check
does not compare with the type of the first parameter, and arguments for the other parameters. -/
structure Sound : Prop where
  builtins : ∀ b : Builtin, ∃ t, p.type? b.name = some t
  keyed : ∀ id, p.Has id → p.store.Keyed id
  kept : p.Kept p.store
  functions : ∀ id ∈ p.scope, ∀ r ∈ (p.store.table id).routines, ∀ arguments,
    List.Forall₂ p.Fits r.function.parameterTypes arguments → p.Keeps r arguments
  members : ∀ t, p.type? t.name = some t → ∀ r ∈ (p.store.table t.members).routines,
    ∀ owner arguments, p.store.membersOfValue p.registry owner = .ok t.members →
      p.Fits (some Builtin.any.type) owner →
      List.Forall₂ p.Fits (r.function.parameterTypes.drop 1) arguments →
      p.Keeps r (owner :: arguments)

variable {p} {σ τ : Store}

/-! ### Values -/

namespace Fits

variable {t : Option Ty} {v : Value}

theorem nil : p.Fits t .nil :=
  fun _ _ => .inl rfl

theorem of_hostless {u : Ty} (hv : v.Hostless) (ha : u.admits v = true) : p.Fits (some u) v := by
  rintro _ ⟨⟩
  exact .inr ⟨ha, fun o ho => absurd ho (hv o)⟩

/-- A value moves to every place whose type takes that of its own. -/
theorem moved {target source : Option Ty} (h : p.Fits source v) (ht : Ty.Takes target source) :
    p.Fits target v := by
  obtain ⟨u, s, rfl, rfl, ha⟩ := ht
  rintro _ ⟨⟩
  exact (h s rfl).imp_right fun hv => ⟨Ty.accepts_trans ha hv.1, hv.2⟩

end Fits

theorem fits_moved {targets sources : List (Option Ty)} {vs : List Value}
    (ht : List.Forall₂ Ty.Takes targets sources) (h : List.Forall₂ p.Fits sources vs) :
    List.Forall₂ p.Fits targets vs := by
  induction ht generalizing vs with
  | nil => exact h
  | cons ht _ ih =>
    cases h with
    | cons hv hvs => exact .cons (hv.moved ht) (ih hvs)

theorem fits_literal {v : Value} {t : Ty} (h : literalType v = .ok t) : p.Fits (some t) v := by
  have hholds : Holds false (some t) v := holds_literal h
  obtain ⟨_, _, ⟨⟩, -, ha⟩ := hholds
  exact .of_hostless (literalType_hostless h) (ha.resolve_right nofun)

end Premises

/-! ### Operators -/

/-- A type that is neither `Any` nor `Comparable` admits only values of its own name. -/
theorem Ty.name_of_admits {t : Ty} {v : Value} (h : t.admits v = true)
    (ha : t.name ≠ Builtin.any.name) (hc : t.name ≠ Builtin.comparable.name) : t.name = v.kind :=
  (Ty.accepts_iff.mp h).resolve_right fun h => h.elim ha fun h => hc h.1

/-- Arithmetic has a result only on two Integers or two Decimals, and stays there. -/
theorem Arithmetic.onNumbers_kind {a : Arithmetic} {l r v : Value} (h : a.onNumbers l r = .ok v) :
    v.kind = l.kind ∧ r.kind = l.kind ∧
      (l.kind = Builtin.integer.name ∨ l.kind = Builtin.decimal.name) := by
  unfold onNumbers at h
  split at h
  · obtain ⟨_, -, rfl⟩ := Except.map_ok.mp h
    exact ⟨rfl, rfl, .inl rfl⟩
  · obtain ⟨_, -, rfl⟩ := Except.map_ok.mp h
    exact ⟨rfl, rfl, .inr rfl⟩
  · cases h

theorem Value.join_kind {l r v : Value} (h : l.join r = .ok v) : v.kind = Builtin.string.name := by
  obtain ⟨_, -, h⟩ := bind_ok.mp h
  obtain ⟨_, -, h⟩ := bind_ok.mp h
  cases h
  rfl

theorem Value.kind_of_isString {v : Value} (h : v.isString = true) :
    v.kind = Builtin.string.name := by
  cases v with
  | string s => rfl
  | _ => cases h

namespace Premises

variable {p : Premises} {op : Name} {tl tr : Option Ty} {t : Ty} {l r v : Value}

/-- In a place of a type that is neither `Any` nor `Comparable` a value is of that kind, if it is
not `Nil`. -/
theorem Fits.name (h : p.Fits (some t) v) (hv : v.kind ≠ Builtin.nil.name)
    (ha : t.name ≠ Builtin.any.name) (hc : t.name ≠ Builtin.comparable.name) : t.name = v.kind := by
  rcases h t rfl with rfl | hadm
  · exact absurd rfl hv
  · exact Ty.name_of_admits hadm.1 ha hc

/-- A number is in no place of type String. -/
theorem Fits.not_number {o : Option Ty} (h : p.Fits o v) (ho : Ty.isKnown o .string = true)
    (hv : v.kind = Builtin.integer.name ∨ v.kind = Builtin.decimal.name) : False := by
  cases o with
  | none => cases ho
  | some t =>
    have ht : t.name = Builtin.string.name := by simpa [Ty.isKnown, Ty.is] using ho
    have hname := h.name (by rcases hv with hv | hv <;> rw [hv] <;> decide) (ht ▸ by decide)
      (ht ▸ by decide)
    rcases hv with hv | hv
    · exact absurd (ht.symm.trans (hname.trans hv)) (by decide)
    · exact absurd (ht.symm.trans (hname.trans hv)) (by decide)

/-- A value in a place of a number type is a number, if it is not `Nil`. -/
theorem Fits.number (h : p.Fits (some t) v)
    (ht : t.name = Builtin.integer.name ∨ t.name = Builtin.decimal.name)
    (hv : v.kind ≠ Builtin.nil.name) : t.name = v.kind := by
  rcases ht with ht | ht
  · exact h.name hv (ht ▸ by decide) (ht ▸ by decide)
  · exact h.name hv (ht ▸ by decide) (ht ▸ by decide)

theorem Fits.isString_of_number (h : p.Fits (some t) v)
    (ht : t.name = Builtin.integer.name ∨ t.name = Builtin.decimal.name) : v.isString = false := by
  cases hs : v.isString with
  | false => rfl
  | true =>
    have hv := Value.kind_of_isString hs
    have hname := h.number ht (hv ▸ by decide)
    rw [hv] at hname
    rcases ht with ht | ht
    · exact absurd (ht.symm.trans hname) (by decide)
    · exact absurd (ht.symm.trans hname) (by decide)

/-- Arithmetic on numbers has a result of the type that both operands have. -/
theorem number_kind {a : Arithmetic} (ht : Operator.numberType a tl tr = .ok t)
    (hl : p.Fits tl l) (h : a.onNumbers l r = .ok v) : t.name = v.kind := by
  obtain ⟨hv, -, hkind⟩ := Arithmetic.onNumbers_kind h
  obtain ⟨hn, rfl, -⟩ := Operator.numberType_ok ht
  rw [hv]
  exact hl.number hn (by rcases hkind with hkind | hkind <;> rw [hkind] <;> decide)

theorem sum_kind (ht : (Operator.arithmetic .sum).resultType tl tr = .ok t) (hl : p.Fits tl l)
    (hr : p.Fits tr r) (h : (Operator.arithmetic .sum).apply l r = .ok v) : t.name = v.kind := by
  simp only [Operator.resultType] at ht
  simp only [Operator.apply] at h
  split at ht
  · next hs =>
    cases ht
    split at h
    · exact (Value.join_kind (Except.mapError_ok.mp h)).symm
    · obtain ⟨-, hk, hn⟩ := Arithmetic.onNumbers_kind h
      rcases Bool.or_eq_true _ _ ▸ hs with hs | hs
      · exact (hl.not_number hs hn).elim
      · exact (hr.not_number hs (hk ▸ hn)).elim
  · obtain ⟨hn, rfl, s, rfl, hs⟩ := Operator.numberType_ok ht
    rw [hl.isString_of_number hn, hr.isString_of_number (hs ▸ hn)] at h
    exact number_kind ht hl h

/-- **On values of the operands' types an operator that passed the check answers a value of the
type that the check gave it**, if it answers. -/
theorem fits_binaryApply (ht : binaryType op tl tr = .ok t) (hl : p.Fits tl l) (hr : p.Fits tr r)
    (h : binaryApply op l r = .ok v) : p.Fits (some t) v := by
  refine .of_hostless (binaryApply_hostless h) (Ty.admits_of_kind ?_)
  unfold binaryType at ht
  unfold binaryApply at h
  have truth {b : Bool} (hb : t = Builtin.boolean.type) : t.name = (Value.boolean b).kind :=
    hb ▸ rfl
  split at ht
  · next o ho =>
    rw [ho] at h
    cases o with
    | and =>
      obtain ⟨_, -, rfl⟩ := Except.map_ok.mp h
      exact truth (Operator.logicalType_ok ht).1
    | or =>
      obtain ⟨_, -, rfl⟩ := Except.map_ok.mp h
      exact truth (Operator.logicalType_ok ht).1
    | equal =>
      cases h
      exact truth (Operator.comparisonType_ok ht).1
    | notEqual =>
      cases h
      exact truth (Operator.comparisonType_ok ht).1
    | ordered c =>
      simp only [Operator.apply] at h
      split at h
      · cases h
        exact truth (Operator.comparisonType_ok ht).1
      · cases h
    | arithmetic a =>
      cases a with
      | sum => exact sum_kind ht hl hr h
      | difference => exact number_kind ht hl h
      | product => exact number_kind ht hl h
      | quotient => exact number_kind ht hl h
  · cases ht

/-- So does what the left operand settles alone. -/
theorem fits_binarySettled (ht : binaryType op tl tr = .ok t) {b : Bool}
    (h : binarySettled op l = .ok (some b)) : p.Fits (some t) (.boolean b) := by
  refine .of_hostless nofun (Ty.admits_of_kind ?_)
  unfold binaryType at ht
  unfold binarySettled at h
  split at ht
  · next o ho =>
    rw [ho] at h
    cases o with
    | and => exact (Operator.logicalType_ok ht).1 ▸ rfl
    | or => exact (Operator.logicalType_ok ht).1 ▸ rfl
    | _ => cases h
  · cases ht

end Premises

/-! ### Members of values -/

theorem Store.membersOfValue_of_builtin {σ : Store} {R : RegistryId} {v : Value} {b : Builtin}
    (h : v.builtin? = some b) : σ.membersOfValue R v = (σ.type R v.kind).map Ty.members := by
  cases v with
  | object o => cases h
  | _ => rfl

/-- The type of the member variable of that name. -/
def Store.memberType? (σ : Store) (name : Name) (id : TableId) : Option (Option Ty) :=
  ((σ.table id).slot? name).map fun s => s.var.type

/-- The signature that a member function has without its first parameter, for which the receiver
is given. -/
def Function.memberSignature (f : Function) : List (Option Ty) × Option Ty :=
  (f.parameterTypes.drop 1, f.returnType)

/-- The signature of the member function of that name and number of parameters. -/
def Store.memberSignature? (σ : Store) (name : Name) (arity : Nat) (id : TableId) :
    Option (List (Option Ty) × Option Ty) :=
  ((σ.table id).routine? name arity).map fun r => r.function.memberSignature

namespace Premises

variable {p : Premises} {σ τ : Store} {t u : Ty} {v : Value}

section Same

variable (h : p.Same σ)

include h

theorem Same.type? (name : Text) : σ.type? p.registry name = p.type? name := by
  rw [Store.type?, h.registry, Premises.type?, Store.type?]

theorem Same.membersOfValue (v : Value) :
    σ.membersOfValue p.registry v = p.store.membersOfValue p.registry v := by
  have htype (name : Text) : σ.type p.registry name = p.store.type p.registry name := by
    rw [Store.type, h.type?, Store.type, Premises.type?]
  cases v <;> simp only [Store.membersOfValue, htype]

theorem Same.memberType? {id : TableId} (hid : p.Has id) (name : Name) :
    σ.memberType? name id = p.store.memberType? name id := by
  have hvars {ρ : Store} : ρ.memberType? name id
      = ((ρ.vars id).find? fun v => v.name == name).map Variable.type := by
    rw [Store.memberType?, Store.vars, List.find?_map, Option.map_map]
    rfl
  rw [hvars, hvars, h.vars id hid]

theorem Same.memberSignature? {id : TableId} (hid : p.Has id) (name : Name) (arity : Nat) :
    σ.memberSignature? name arity id = p.store.memberSignature? name arity id := by
  unfold Store.memberSignature? Table.routine?
  rw [h.routines id hid]

end Same

/-- What the registered type of the name has is what every other registered type has whose values
a place of that type takes. `Nil` need not have it, but has nothing else. -/
def Shares (p : Premises) (t : Ty) {α : Type} (find : TableId → Option α) (a : α) : Prop :=
  ∀ u, p.type? u.name = some u → u.name ≠ t.name →
    if u.name = Builtin.nil.name then ∀ b, find u.members = some b → b = a
    else t.accepts u = true → find u.members = some a

/-- A value in a place of a type has the members of the registered type of its kind. The place
takes the values of that type, or it is `Nil` and the value has been let through. -/
theorem Sound.exists_members (h : p.Sound) (hv : p.Fits (some t) v) :
    ∃ u, p.type? u.name = some u ∧ p.store.membersOfValue p.registry v = .ok u.members ∧
      u.name = v.kind ∧ (v.kind ≠ Builtin.nil.name → t.accepts u = true) := by
  have taken {u : Ty} (hu : u.name = v.kind) (hne : v.kind ≠ Builtin.nil.name) :
      t.accepts u = true := by
    have hadm := ((hv t rfl).resolve_left fun hnil => hne (hnil ▸ rfl)).1
    exact Ty.accepts_iff.mpr (hu ▸ Ty.accepts_iff.mp hadm)
  have builtin {b : Builtin} (hb : v.builtin? = some b) :
      ∃ u, p.type? u.name = some u ∧ p.store.membersOfValue p.registry v = .ok u.members ∧
        u.name = v.kind ∧ (v.kind ≠ Builtin.nil.name → t.accepts u = true) := by
    obtain ⟨u, hu⟩ := h.builtins b
    have hname : u.name = b.name := by simpa using List.find?_some hu
    have hkind := Value.kind_of_builtin? hb
    refine ⟨u, hname ▸ hu, ?_, hname.trans hkind.symm, taken (hname.trans hkind.symm)⟩
    rw [Store.membersOfValue_of_builtin hb, Store.type, hkind,
      show p.store.type? p.registry b.name = some u from hu]
    rfl
  cases v with
  | object o =>
    have hobject : Value.object o ≠ .nil := fun h => by cases h
    obtain ⟨u, hu, hname, hmembers⟩ := ((hv t rfl).resolve_left hobject).2 o rfl
    exact ⟨u, hu, by rw [Store.membersOfValue, hmembers], hname, taken hname⟩
  | _ => exact builtin rfl

/-- **What a receiver's type has, the value has.** If the registered type of that name has it, and
the others that matter share it, it is found among the members of every value that is not of kind
`Nil`, and nothing else is found for any. -/
theorem Sound.shared (h : p.Sound) (hv : p.Fits (some t) v) {α : Type}
    {find : TableId → Option α} {a : α}
    (hfind : ∀ u, p.type? u.name = some u → u.name = t.name → find u.members = some a)
    (hshares : p.Shares t find a) :
    ∃ u, p.type? u.name = some u ∧ p.store.membersOfValue p.registry v = .ok u.members ∧
      (v.kind ≠ Builtin.nil.name → find u.members = some a) ∧
      ∀ b, find u.members = some b → b = a := by
  obtain ⟨u, hu, hmembers, hkind, htaken⟩ := h.exists_members hv
  have only (hfound : find u.members = some a) (b : α) (hb : find u.members = some b) : b = a :=
    Option.some.inj (hb.symm.trans hfound)
  refine ⟨u, hu, hmembers, ?_⟩
  by_cases hname : u.name = t.name
  · have hfound := hfind u hu hname
    exact ⟨fun _ => hfound, only hfound⟩
  · have hother := hshares u hu hname
    by_cases hnil : u.name = Builtin.nil.name
    · rw [if_pos hnil] at hother
      exact ⟨fun hne => absurd (hkind.symm.trans hnil) hne, hother⟩
    · rw [if_neg hnil] at hother
      have hfound := hother (htaken (hkind ▸ hnil))
      exact ⟨fun _ => hfound, only hfound⟩

/-- Through a receiver of any type but `Any` and `Comparable` only `Nil` could have something
else. -/
theorem shares_of_exact {α : Type} {find : TableId → Option α} {a : α}
    (ha : t.name ≠ Builtin.any.name) (hc : t.name ≠ Builtin.comparable.name)
    (hn : ∀ u, p.type? u.name = some u → u.name = Builtin.nil.name → find u.members = none) :
    p.Shares t find a := by
  intro u hu hname
  split
  · next hnil =>
    intro b hb
    cases (hn u hu hnil).symm.trans hb
  · intro haccepts
    rcases Ty.accepts_iff.mp haccepts with h | h | ⟨h, -⟩
    · exact absurd h.symm hname
    · exact absurd h ha
    · exact absurd h hc

/-! ### Changes that keep the premises -/

/-- Two variables of a table that bear one name are the same. -/
theorem Sound.var_eq (h : p.Sound) {id : TableId} (hid : p.Has id) {v w : Variable}
    (hv : v ∈ p.store.vars id) (hw : w ∈ p.store.vars id) (hn : v.name = w.name) : v = w := by
  obtain ⟨s, hs, rfl⟩ := List.mem_map.mp hv
  obtain ⟨r, hr, rfl⟩ := List.mem_map.mp hw
  have hdistinct := (h.keyed id hid).distinct.slots
  have hfound := hdistinct s hs
  rw [hn, hdistinct r hr] at hfound
  exact congrArg Slot.var (Option.some.inj hfound).symm

/-- A variable of the premises is given a value of its type. -/
theorem Kept.setValue (h : p.Kept σ) (hp : p.Sound) {id : TableId} (hid : p.Has id)
    {v : Variable} (hv : v ∈ p.store.vars id) {x : Value} (hx : p.Fits v.type x) :
    p.Kept (σ.setValue v x) := by
  have hhome : v.home = .table id := by
    obtain ⟨s, hs, rfl⟩ := List.mem_map.mp hv
    exact (hp.keyed id hid).slotHome s hs
  refine ⟨⟨?_, fun i hi => σ.hasTable_setValue.mpr (h.hasTable i hi), fun i hi => ?_,
    fun i hi => ?_⟩, fun i hi s hs => ?_⟩
  · rw [← h.registry, Store.setValue, hhome]
    rfl
  · rw [σ.vars_setValue, h.vars i hi]
  · rw [σ.routines_setValue, h.routines i hi]
  · rcases σ.table_setValue v x i with ht | ⟨hi', ht⟩
    · exact h.values i hi s (ht ▸ hs)
    · cases hhome.symm.trans hi'
      rw [ht] at hs
      obtain ⟨r, hr, rfl⟩ := List.mem_map.mp hs
      by_cases hn : r.var.name = v.name
      · have hmem : r.var ∈ p.store.vars id := h.vars id hid ▸ List.mem_map_of_mem hr
        rw [if_pos (by simpa using hn), hp.var_eq hid hmem hv hn]
        exact hx
      · rw [if_neg (by simpa using hn)]
        exact h.values id hid r hr

/-- Tables that are none of the premises are changed. -/
theorem Same.of_other (h : p.Same σ) (hr : τ.registry p.registry = σ.registry p.registry)
    (hsize : σ.tables.size ≤ τ.tables.size) (ht : ∀ id, p.Has id → τ.table id = σ.table id) :
    p.Same τ := by
  refine ⟨hr.trans h.registry, fun i hi => Nat.lt_of_lt_of_le (h.hasTable i hi) hsize,
    fun i hi => ?_, fun i hi => ?_⟩
  · rw [Store.vars, ht i hi, ← h.vars i hi, Store.vars]
  · rw [ht i hi, h.routines i hi]

theorem Kept.of_other (h : p.Kept σ) (hr : τ.registry p.registry = σ.registry p.registry)
    (hsize : σ.tables.size ≤ τ.tables.size) (ht : ∀ id, p.Has id → τ.table id = σ.table id) :
    p.Kept τ :=
  ⟨h.toSame.of_other hr hsize ht, fun i hi s hs => h.values i hi s (ht i hi ▸ hs)⟩

/-! ### Functions of the host -/

section Reads

variable {f : Function} {action : HostAction} {traced : Bool} {vs : List Value}
  (hreads : (action.does vs).OnlyAnswers (p.Fits f.returnType))

include hreads

/-- A function of the host that sets nothing changes no table, traced or not. -/
theorem gives_of_reads (fuel : Nat) :
    Eval.Gives (fun τ => τ.tables = σ.tables ∧ τ.registries = σ.registries)
      (invoke fuel ⟨f, some (.host action traced)⟩ vs) σ (p.Fits f.returnType) := by
  have acted (τ : Store) (hτ : τ.tables = σ.tables ∧ τ.registries = σ.registries) :
      Eval.Gives (fun τ => τ.tables = σ.tables ∧ τ.registries = σ.registries)
        (Eval.host action vs) τ (p.Fits f.returnType) :=
    hreads.gives (fun _ _ h => h) hτ
  cases fuel with
  | zero => exact Eval.gives_throw _
  | succ n =>
    simp only [invoke]
    cases traced with
    | false => exact acted σ ⟨rfl, rfl⟩
    | true =>
      refine (Eval.gives_lift ⟨rfl, rfl⟩ _).bind fun t τ hτ _ => ?_
      exact (Eval.gives_write hτ).bind fun _ υ hυ _ => acted υ hυ

/-- If that answer is of its result type, it keeps to its signature. -/
theorem keeps_of_reads : p.Keeps ⟨f, some (.host action traced)⟩ vs where
  answers fuel τ hk v υ h := by
    obtain ⟨⟨ht, hr⟩, hfits⟩ := gives_of_reads hreads fuel h
    refine ⟨hk.of_other ?_ (Nat.le_of_eq (congrArg Array.size ht).symm) fun id _ => ?_, hfits⟩
    · rw [Store.registry, hr, Store.registry]
    · rw [Store.table, ht, Store.table]
  spares fuel τ v υ _ h id _ := by
    rw [Store.table, (gives_of_reads hreads fuel h).1.1, Store.table]
  apart fuel τ a m _ hl := by cases hl

end Reads

end Premises

end Parlance
