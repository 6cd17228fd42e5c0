/-
Runs whose tables are elsewhere.

A relocation says which table of one run is which of another, and which registry.  The stores of the
two runs agree under it when tables that correspond have the same variables, with the same values,
and under each key functions that do the same.  The order in which functions were declared is left
open, since a function is only ever looked up by its key; so is what a table holds that corresponds
to none, because nothing leads there.  The streams may be of different encodings, if the second one
takes whatever the first one does; a first run that stops for a text that only its own stream
refuses is excused.

Whatever is looked up, set or declared under a relocation goes together, so its pairing is lawful.
-/
import Parlance.Proofs.Paired.Rename
import Parlance.Proofs.Paired.Source
import Parlance.Proofs.Store.Deeds
import Parlance.Proofs.Store.Functions
import Parlance.Proofs.Store.Variables

namespace Parlance

/-- Stores with the same variables, which have the same values, and in which the same has been
written, to streams of one encoding. -/
structure Store.SameValues (σ τ : Store) : Prop where
  slots : ∀ id, (τ.table id).slots = (σ.table id).slots
  output : τ.output = σ.output
  encoding : τ.encoding = σ.encoding

/-- A name finds the same variable, with the same value. -/
theorem Store.SameValues.slot? {σ τ : Store} (h : σ.SameValues τ) (id : TableId) (name : Name) :
    (τ.table id).slot? name = (σ.table id).slot? name :=
  congrArg (List.find? _) (h.slots id)

/-- Two runs end the same: with the same answer, or stopped by the same, and in stores that are
related. -/
inductive EndsSame {α : Type} (R : Store → Store → Prop) :
    EStateM.Result Stop Store α → EStateM.Result Stop Store α → Prop
  | answer {a : α} {σ τ : Store} (h : R σ τ) : EndsSame R (.ok a σ) (.ok a τ)
  | stop {s : Stop} {σ τ : Store} (h : R σ τ) : EndsSame R (.error s σ) (.error s τ)

namespace EndsSame

variable {α : Type} {R S : Store → Store → Prop} {r r' : EStateM.Result Stop Store α}

theorem mono (h : EndsSame R r r') (hR : ∀ σ τ, R σ τ → S σ τ) : EndsSame S r r' := by
  cases h with
  | answer h => exact .answer (hR _ _ h)
  | stop h => exact .stop (hR _ _ h)

theorem symm (h : EndsSame R r r') (hR : ∀ σ τ, R σ τ → S τ σ) : EndsSame S r' r := by
  cases h with
  | answer h => exact .answer (hR _ _ h)
  | stop h => exact .stop (hR _ _ h)

theorem refl (hR : ∀ σ, R σ σ) (r : EStateM.Result Stop Store α) : EndsSame R r r := by
  cases r with
  | ok a σ => exact .answer (hR σ)
  | error s σ => exact .stop (hR σ)

end EndsSame

/-- A function of some name is bound when one is with some number of parameters. -/
theorem Table.bindsFunction_iff {t : Table} {n : Name} :
    t.bindsFunction n = true ↔ ∃ count r, t.routine? n count = some r := by
  unfold bindsFunction routine?
  rw [List.any_eq_true]
  constructor
  · rintro ⟨r, hr, hn⟩
    refine ⟨r.function.arity, Option.isSome_iff_exists.mp ?_⟩
    exact List.find?_isSome.mpr ⟨r, hr, by simpa using hn⟩
  · rintro ⟨count, r, hr⟩
    have hn := List.find?_some hr
    exact ⟨r, List.mem_of_find?_eq_some hr, by simp_all⟩

/-- Which tables and registries of one run are which of another, and what else is asked of the
values that occur and of the faults. -/
structure Relocation where
  tables : TableId → TableId → Prop
  registries : RegistryId → RegistryId → Prop
  sort : Value → Prop
  faults : Fault → Fault → Prop
  unique : ∀ {i j i' j'}, tables i j → tables i' j' → (i' = i ↔ j' = j)
  plain : ∀ v : Value, (∀ o, v ≠ .object o) → sort v
  /-- Objects are shared by the runs, and so are the tables of their members. -/
  members : ∀ {o}, sort (.object o) → tables o.members o.members
  fault : ∀ f, faults f f
  /-- The encodings of the streams that are written to. -/
  streams : Encoding → Encoding → Prop
  takes : ∀ e e', streams e e' → ∀ t, e.takes t = true → e'.takes t = true

namespace Relocation

variable (y : Relocation)

/-! ### What corresponds -/

/-- What matters to the runs. -/
def code : Likeness where
  literals := y.sort
  renamings ν := ∀ n, y.faults (.binding (.duplicateName n)) (.binding (.duplicateName (ν.name n)))
  typeNames _ _ _ := True
  types _ _ := True
  bound _ _ := True
  callee _ _ := True

/-- Passes whose scopes and registries correspond. -/
structure Passes (p p' : Pass) : Prop where
  scope : List.Forall₂ y.tables p.scope.tables p'.scope.tables
  registry : y.registries p.registry p'.registry

/-- Places of variables. -/
inductive Homes : Home → Home → Prop
  | table {i j : TableId} (h : y.tables i j) : Homes (.table i) (.table j)
  | block {n : Nat} : Homes (.block n) (.block n)

/-- The same variable, in places that correspond. -/
structure Cells (v v' : Variable) : Prop where
  name : v'.name = v.name
  targetName : v'.targetName = v.targetName
  type : v'.type = v.type
  home : y.Homes v.home v'.home

/-- The same variable with the same value. -/
structure Slots (s s' : Slot) : Prop where
  cells : y.Cells s.var s'.var
  value : s.value = s'.value
  sort : y.sort s.value

/-- What functions do that are called with so many arguments. -/
inductive Implements (count : Nat) : Option Implementation → Option Implementation → Prop
  | none : Implements count none none
  | print : Implements count (some .print) (some .print)
  | host {action : HostAction} {traced : Bool}
      (h : action.Within y.sort fun id => y.tables id id) :
      Implements count (some (.host action traced)) (some (.host action traced))
  | method {m m' : Method} {p p' : Pass} {ν : Renaming} (hp : y.Passes p p')
      (hν : y.code.renamings ν) (parameters : m'.parameters = m.parameters.map ν.name)
      (own : ∀ n, ν.own n → n ∈ m.parameters ∧ m.parameters.length ≤ count)
      (body : List.Forall₂ (Stmt.Alike y.code ν) m.body m'.body) :
      Implements count (some (.method m p)) (some (.method m' p'))

/-- Functions of the same key that do the same. -/
structure Routines (r r' : Routine) : Prop where
  name : r'.function.name = r.function.name
  arity : r'.function.arity = r.function.arity
  implements : y.Implements r.function.arity r.implementation? r'.implementation?

/-- Stores that agree in all that corresponds. -/
structure Stores (σ τ : Store) : Prop where
  hasTable : ∀ {i j}, y.tables i j → (σ.HasTable i ↔ τ.HasTable j)
  slots : ∀ {i j}, y.tables i j → List.Forall₂ y.Slots (σ.table i).slots (τ.table j).slots
  routines : ∀ {i j}, y.tables i j → ∀ n count,
    Option.Rel y.Routines ((σ.table i).routine? n count) ((τ.table j).routine? n count)
  types : ∀ {r r'}, y.registries r r' → ∀ n,
    Option.Rel (fun t t' : Ty => y.tables t.members t'.members) (σ.type? r n) (τ.type? r' n)
  output : τ.output = σ.output
  encoding : y.streams σ.encoding τ.encoding

/-- There is a text that only the first run's stream refuses. -/
def Narrows : Prop :=
  ∃ e e' t, y.streams e e' ∧ ¬e.takes t = true ∧ e'.takes t = true

/-- The pairing of the two runs. -/
def pairing : Pairing where
  stores := y.Stores
  passes := y.Passes
  cells := y.Cells
  sort := y.sort
  faults := y.faults
  excused f := f = .encoding ∧ y.Narrows
  hosted action := action.Within y.sort fun id => y.tables id id

variable {y} {σ τ : Store} {i j : TableId}

theorem Routines.addRoutine {r r' : Routine} (hr : y.Routines r r') {t t' : Table} {n : Name}
    {count : Nat} (h : Option.Rel y.Routines (t.routine? n count) (t'.routine? n count)) :
    Option.Rel y.Routines ((t.addRoutine r).routine? n count)
      ((t'.addRoutine r').routine? n count) := by
  rw [Table.routine?_addRoutine, Table.routine?_addRoutine, hr.name, hr.arity]
  generalize t.routine? n count = o at h
  generalize t'.routine? n count = o' at h
  cases h with
  | some h => exact .some h
  | none =>
    rw [Option.none_or, Option.none_or]
    split
    · exact .some hr
    · exact .none

/-! ### Looking up -/

namespace Stores

variable (h : y.Stores σ τ)
include h

theorem slot? (hij : y.tables i j) (n : Name) :
    Option.Rel y.Slots ((σ.table i).slot? n) ((τ.table j).slot? n) :=
  forall₂_find? (fun {s s'} hs => by rw [hs.cells.name]) (h.slots hij)

theorem bindsFunction (hij : y.tables i j) (n : Name) :
    (τ.table j).bindsFunction n = (σ.table i).bindsFunction n := by
  rw [Bool.eq_iff_iff, Table.bindsFunction_iff, Table.bindsFunction_iff]
  refine exists_congr fun count => ?_
  have hr := h.routines hij n count
  generalize (σ.table i).routine? n count = o at hr
  generalize (τ.table j).routine? n count = o' at hr
  cases hr with
  | none => simp
  | some _ => simp

theorem findVariable {ids ids' : List TableId} (hids : List.Forall₂ y.tables ids ids') (n : Name) :
    Option.Rel y.Slots (σ.findVariable n ids) (τ.findVariable n ids') := by
  induction hids with
  | nil => exact .none
  | @cons i j _ _ hij _ ih =>
    rw [Store.findVariable_cons, Store.findVariable_cons]
    have hs := h.slot? hij n
    generalize (σ.table i).slot? n = o at hs
    generalize (τ.table j).slot? n = o' at hs
    cases hs with
    | none => exact ih
    | some hs => exact .some hs

theorem findFunction {ids ids' : List TableId} (hids : List.Forall₂ y.tables ids ids') (n : Name)
    (count : Nat) :
    Option.Rel y.Routines (σ.findFunction n count ids) (τ.findFunction n count ids') := by
  induction hids with
  | nil => exact .none
  | @cons i j _ _ hij _ ih =>
    rw [Store.findFunction_cons, Store.findFunction_cons]
    have hr := h.routines hij n count
    generalize (σ.table i).routine? n count = o at hr
    generalize (τ.table j).routine? n count = o' at hr
    cases hr with
    | none => exact ih
    | some hr => exact .some hr

theorem any_bindsFunction {ids ids' : List TableId} (hids : List.Forall₂ y.tables ids ids')
    (n : Name) : (ids'.any fun id => (τ.table id).bindsFunction n)
      = ids.any fun id => (σ.table id).bindsFunction n := by
  induction hids with
  | nil => rfl
  | cons hij _ ih => rw [List.any_cons, List.any_cons, h.bindsFunction hij, ih]

/-! ### Changing -/

/-- A table and the one that corresponds are changed in both stores, or neither is. -/
theorem table_modifyTable (hij : y.tables i j) {a b : TableId} (hab : y.tables a b)
    (f f' : Table → Table) :
    ((σ.modifyTable i f).table a = σ.table a ∧ (τ.modifyTable j f').table b = τ.table b) ∨
      (a = i ∧ b = j ∧ (σ.modifyTable i f).table a = f (σ.table i) ∧
        (τ.modifyTable j f').table b = f' (τ.table j)) := by
  have hwhere := y.unique hij hab
  by_cases hai : a = i
  · have hbj := hwhere.mp hai
    subst hai hbj
    by_cases ht : σ.HasTable a
    · exact .inr ⟨rfl, rfl, Store.table_modifyTable_self ht f,
        Store.table_modifyTable_self ((h.hasTable hij).mp ht) f'⟩
    · refine .inl ⟨?_, ?_⟩
      · exact (σ.table_modifyTable a a f).elim id fun hc => absurd hc.2.1 ht
      · exact (τ.table_modifyTable b b f').elim id fun hc =>
          absurd hc.2.1 ((h.hasTable hij).not.mp ht)
  · exact .inl ⟨σ.table_modifyTable_of_ne hai f,
      τ.table_modifyTable_of_ne (fun hbj => hai (hwhere.mpr hbj)) f'⟩

/-- Both change tables that correspond, and in the same way. -/
theorem modifyTable (hij : y.tables i j) {f f' : Table → Table}
    (hslots : List.Forall₂ y.Slots (σ.table i).slots (τ.table j).slots →
      List.Forall₂ y.Slots (f (σ.table i)).slots (f' (τ.table j)).slots)
    (hroutines : ∀ n count, Option.Rel y.Routines ((σ.table i).routine? n count)
        ((τ.table j).routine? n count) →
      Option.Rel y.Routines ((f (σ.table i)).routine? n count)
        ((f' (τ.table j)).routine? n count)) :
    y.Stores (σ.modifyTable i f) (τ.modifyTable j f') where
  hasTable hab := by rw [σ.hasTable_modifyTable, τ.hasTable_modifyTable, h.hasTable hab]
  slots hab := by
    rcases h.table_modifyTable hij hab f f' with ⟨hl, hr⟩ | ⟨rfl, rfl, hl, hr⟩
    · rw [hl, hr]
      exact h.slots hab
    · rw [hl, hr]
      exact hslots (h.slots hab)
  routines hab n count := by
    rcases h.table_modifyTable hij hab f f' with ⟨hl, hr⟩ | ⟨rfl, rfl, hl, hr⟩
    · rw [hl, hr]
      exact h.routines hab n count
    · rw [hl, hr]
      exact hroutines n count (h.routines hab n count)
  types := h.types
  output := h.output
  encoding := h.encoding

theorem setValue {v v' : Variable} {x : Value} (hv : y.Cells v v') (hx : y.sort x) :
    y.Stores (σ.setValue v x) (τ.setValue v' x) := by
  have hhome := hv.home
  unfold Store.setValue
  generalize v.home = a at hhome
  generalize v'.home = b at hhome
  cases hhome with
  | block => exact h
  | table hij =>
    refine h.modifyTable hij (fun hs => ?_) fun _ _ hr => hr
    simp only [Table.setValue]
    rw [List.forall₂_map_left_iff, List.forall₂_map_right_iff]
    refine hs.imp fun s s' hs => ?_
    rw [hs.cells.name, hv.name]
    split
    · exact ⟨hs.cells, rfl, hx⟩
    · exact hs

theorem setNamed (hij : y.tables i j) (n : Name) {x : Value} (hx : y.sort x) :
    y.Stores (σ.setNamed i n x) (τ.setNamed j n x) := by
  have hs := h.slot? hij n
  unfold Store.setNamed
  generalize (σ.table i).slot? n = o at hs
  generalize (τ.table j).slot? n = o' at hs
  cases hs with
  | none => exact h
  | some hs => exact h.setValue hs.cells hx

end Stores

theorem Slots.paired {s s' : Slot} (h : y.Slots s s') : y.pairing.Slots s s' :=
  ⟨h.value, h.sort, h.cells⟩

theorem Stores.memberVariable (h : y.Stores σ τ) (hij : y.tables i j) (n : Name) :
    y.pairing.Reads y.pairing.Slots (σ.memberVariable i n) (τ.memberVariable j n) := by
  have hs := h.slot? hij n
  unfold Store.memberVariable
  generalize (σ.table i).slot? n = o at hs
  generalize (τ.table j).slot? n = o' at hs
  cases hs with
  | none => exact .fault (y.fault _)
  | some hs => exact .ok hs.paired

/-! ### Both runs -/

theorem Routines.paired {r r' : Routine} (h : y.Routines r r') {count : Nat}
    (hcount : r.function.arity = count) : y.pairing.Routines count r r' := by
  obtain ⟨f, i⟩ := r
  obtain ⟨f', i'⟩ := r'
  refine ⟨h.name.symm, ?_⟩
  subst hcount
  cases h.implements with
  | none => exact .none
  | print => exact .print
  | host ha => exact .host ha
  | method hp hν parameters own body => exact .method hp hν parameters own body

/-- The members of a value are in tables that correspond. -/
theorem Stores.membersOfValue (h : y.Stores σ τ) {p p' : Pass} (hp : y.Passes p p') {v : Value}
    (hv : y.sort v) :
    y.pairing.Reads y.tables (σ.membersOfValue p.registry v) (τ.membersOfValue p'.registry v) := by
  have typed (n : Text) : y.pairing.Reads y.tables ((σ.type p.registry n).map Ty.members)
      ((τ.type p'.registry n).map Ty.members) := by
    have ht := h.types hp.registry n
    unfold Store.type
    generalize σ.type? p.registry n = o at ht
    generalize τ.type? p'.registry n = o' at ht
    cases ht with
    | none => exact .fault (y.fault _)
    | some ht => exact .ok ht
  cases v with
  | object o => exact .ok (y.members hv)
  | _ => exact typed _

theorem reads_bind {α β γ δ : Type} {R : α → β → Prop} {S : γ → δ → Prop}
    {r : Except BindingFault α} {r' : Except BindingFault β} {f : α → Except BindingFault γ}
    {g : β → Except BindingFault δ} (h : y.pairing.Reads R r r')
    (hfg : ∀ a b, R a b → y.pairing.Reads S (f a) (g b)) :
    y.pairing.Reads S (r >>= f) (r' >>= g) := by
  cases h with
  | ok h => exact hfg _ _ h
  | fault h => exact .fault h
  | excused h => exact nomatch h.1

theorem Stores.memberFunction (h : y.Stores σ τ) (hij : y.tables i j) (n : Name) (count : Nat) :
    y.pairing.Reads (y.pairing.Routines count) (σ.memberFunction i n count)
      (τ.memberFunction j n count) := by
  have hr := h.routines hij n count
  unfold Store.memberFunction
  cases hfound : (σ.table i).routine? n count with
  | some r =>
    obtain ⟨r', hr', hR⟩ := exists_of_rel hr hfound
    rw [hr']
    exact .ok (hR.paired (Table.mem_of_routine? hfound).2.2)
  | none =>
    simp only [none_of_rel hr hfound, h.bindsFunction hij]
    split <;> exact .fault (y.fault _)

theorem top_of_scope {s s' : Scope} (h : List.Forall₂ y.tables s.tables s'.tables) :
    y.tables s.top s'.top := by
  unfold Scope.tables at h
  cases h with
  | cons h _ => exact h

/-- What the first run's stream takes is written by both runs. -/
theorem together_writing (t : Text) :
    y.pairing.Together (fun _ _ => True) (Eval.write t) (Eval.write t) := by
  intro σ τ hs
  have hs : y.Stores σ τ := hs
  by_cases ht : σ.encoding.takes t = true
  · rw [Eval.write_taken ht, Eval.write_taken (y.takes _ _ hs.encoding t ht)]
    exact .ok trivial ⟨hs.hasTable, hs.slots, hs.routines, hs.types,
      congrArg (· ++ t) hs.output, hs.encoding⟩
  · rw [Eval.write_refused ht]
    by_cases ht' : τ.encoding.takes t = true
    · exact .excused ⟨rfl, _, _, t, hs.encoding, ht, ht'⟩
    · rw [Eval.write_refused ht']
      exact .fault (y.fault _) hs

/-! ### Acting for the host -/

/-- What a function of the host does is the same for both runs, if it knows no tables but such as
correspond to themselves. -/
theorem together_perform {deed : Deed} (h : deed.Within y.sort fun id => y.tables id id) :
    y.pairing.Together y.pairing.Same deed.perform deed.perform := by
  induction deed with
  | answer v => exact Pairing.together_pure ⟨rfl, h⟩
  | fail cause => exact Pairing.together_throw (y.fault cause)
  | look id name next ih =>
    obtain ⟨hid, hnext⟩ := h
    intro σ τ hs
    have found := hs.slot? hid name
    show y.pairing.Results _ ((next (((σ.table id).slot? name).map Slot.value)).perform σ)
      ((next (((τ.table id).slot? name).map Slot.value)).perform τ)
    generalize (σ.table id).slot? name = o at found
    generalize (τ.table id).slot? name = o' at found
    cases found with
    | none => exact ih none (hnext none nofun) hs
    | @some s s' hss =>
      have hsort : ∀ v ∈ some s.value, y.sort v := by
        rintro v ⟨⟩
        exact hss.sort
      simpa only [Option.map_some, hss.value] using ih (some s.value) (hnext _ hsort) hs
  | set id name v next ih =>
    obtain ⟨hid, hv, hnext⟩ := h
    have sets : y.pairing.Together (fun _ _ => True) (modify (·.setNamed id name v) : Eval Unit)
        (modify (·.setNamed id name v)) :=
      Pairing.together_modify fun _ _ hs => Stores.setNamed hs hid name hv
    exact sets.bind fun _ _ _ => ih hnext
  | write t next ih =>
    exact (together_writing t).bind fun _ _ _ => ih h

/-- **Runs whose tables are elsewhere go together.** -/
theorem pairing_lawful (y : Relocation) : y.pairing.Lawful where
  plain := y.plain
  fault := y.fault
  write := together_writing
  report r h := ⟨h.hasTable, h.slots, h.routines, h.types, h.output, h.encoding⟩
  setValue h hv hx := h.setValue hv hx
  declareVariable {σ τ p p' x} n h hp hx := by
    have htop := top_of_scope hp.scope
    have hslot := h.slot? htop n
    unfold Store.declareVariable
    cases hs : (σ.table p.scope.top).slot? n with
    | some s =>
      obtain ⟨s', hs', -⟩ := exists_of_rel hslot hs
      simp only [hs']
      exact .fault (y.fault _)
    | none =>
      simp only [none_of_rel hslot hs]
      refine .ok (h.modifyTable htop (fun hslots => ?_) fun _ _ hr => hr)
      exact List.rel_append hslots (.cons ⟨⟨rfl, rfl, rfl, .table htop⟩, rfl, hx⟩ .nil)
  declareMethod {σ τ p p' ν m m'} types result h hp hν hm htypes := by
    have htop := top_of_scope hp.scope
    have hroutine := h.routines htop m.name types.length
    unfold Store.declareFunction
    cases hr : (σ.table p.scope.top).routine? m.name types.length with
    | some r =>
      obtain ⟨r', hr', -⟩ := exists_of_rel hroutine hr
      simp only [hr']
      exact .fault (y.fault _)
    | none =>
      simp only [none_of_rel hroutine hr]
      have added : y.Routines
          ⟨⟨m.name, (nonempty? none).or m.name, types, result, p.scope.top⟩, some (.method m p)⟩
          ⟨⟨m.name, (nonempty? none).or m.name, types, result, p'.scope.top⟩,
            some (.method m' p')⟩ := by
        refine ⟨rfl, rfl, .method hp hν hm.parameters (fun n hn => ⟨hm.own n hn, ?_⟩) hm.body⟩
        exact Nat.le_of_eq htypes.symm
      exact .ok (h.modifyTable htop id fun n count => added.addRoutine)
  scopeVariable {σ τ p p'} n h hp := by
    have hs := h.findVariable hp.scope n
    unfold Store.scopeVariable
    generalize σ.findVariable n p.scope.tables = o at hs
    generalize τ.findVariable n p'.scope.tables = o' at hs
    cases hs with
    | none => exact .fault (y.fault _)
    | some hs => exact .ok hs.paired
  scopeFunction {σ τ p p'} n count h hp := by
    have hr := h.findFunction hp.scope n count
    unfold Store.scopeFunction
    cases hfound : σ.findFunction n count p.scope.tables with
    | some r =>
      obtain ⟨r', hr', hR⟩ := exists_of_rel hr hfound
      obtain ⟨-, -, -, -, harity⟩ := Store.mem_of_findFunction hfound
      rw [hr']
      exact .ok (hR.paired harity)
    | none =>
      simp only [none_of_rel hr hfound, h.any_bindsFunction hp.scope]
      split <;> exact .fault (y.fault _)
  memberVariable {σ τ p p' v} n h hp hv :=
    reads_bind (h.membersOfValue hp hv) fun i j hij => h.memberVariable hij n
  memberFunction n count h hp hv :=
    reads_bind (h.membersOfValue hp hv) fun i j hij => h.memberFunction hij n count
  host _ ha hvs := together_perform (ha _ hvs)

/-! ### How runs end -/

/-- If faults only correspond to themselves, both runs end the same, unless the first one stops for
a text that only its own stream refuses. -/
theorem endsSame_or {α : Type} (hfaults : ∀ {f g}, y.faults f g → g = f) {R : α → α → Prop}
    (hR : ∀ {a b}, R a b → b = a) {r r' : EStateM.Result Stop Store α}
    (h : y.pairing.Results R r r') :
    EndsSame y.Stores r r' ∨ y.Narrows ∧ ∃ ρ, r = .error (.fault .encoding) ρ := by
  cases h with
  | ok h hs =>
    cases hR h
    exact .inl (.answer hs)
  | fault h hs =>
    cases hfaults h
    exact .inl (.stop hs)
  | outOfFuel hs => exact .inl (.stop hs)
  | @excused _ σ _ h =>
    obtain ⟨rfl, hnarrows⟩ := h
    exact .inr ⟨hnarrows, σ, rfl⟩

/-- Streams of one encoding refuse the same texts. -/
theorem not_narrows (hstreams : ∀ {e e'}, y.streams e e' → e' = e) : ¬y.Narrows := by
  rintro ⟨e, e', t, he, hrefused, htaken⟩
  cases hstreams he
  exact hrefused htaken

/-- If both runs write to streams of one encoding as well, they end the same in any case. -/
theorem endsSame {α : Type} (hfaults : ∀ {f g}, y.faults f g → g = f)
    (hstreams : ∀ {e e'}, y.streams e e' → e' = e) {R : α → α → Prop}
    (hR : ∀ {a b}, R a b → b = a) {r r' : EStateM.Result Stop Store α}
    (h : y.pairing.Results R r r') : EndsSame y.Stores r r' :=
  (endsSame_or hfaults hR h).resolve_right fun h => not_narrows hstreams h.1

/-! ### What corresponds to itself -/

theorem code_reflexive (y : Relocation) : y.code.Reflexive :=
  ⟨fun _ _ => trivial, fun _ => trivial, fun _ => trivial, fun _ => trivial⟩

theorem Implements.same {count : Nat} {i : Option Implementation}
    (hhost : ∀ action traced, i = some (.host action traced) →
      action.Within y.sort fun id => y.tables id id)
    (hmethod : ∀ m p, i = some (.method m p) →
      y.Passes p p ∧ ∀ n ∈ walkStmts m.body, n.Fits y.code .same) : y.Implements count i i := by
  cases i with
  | none => exact .none
  | some i =>
    cases i with
    | print => exact .print
    | host action traced => exact .host (hhost action traced rfl)
    | method m p =>
      obtain ⟨hp, hfits⟩ := hmethod m p rfl
      have same := m.alike_refl y.code_reflexive hfits
      exact .method hp (fun _ => y.fault _) same.parameters (fun _ h => h.elim) same.body

/-- A table whose variables and functions correspond to themselves. -/
structure Fixes (y : Relocation) (t : Table) : Prop where
  slots : ∀ s ∈ t.slots, y.Slots s s
  routines : ∀ r ∈ t.routines,
    y.Implements r.function.arity r.implementation? r.implementation?

theorem Fixes.rel_slots {t : Table} (h : y.Fixes t) : List.Forall₂ y.Slots t.slots t.slots :=
  List.forall₂_same.mpr h.slots

theorem Fixes.rel_routine? {t : Table} (h : y.Fixes t) (n : Name) (count : Nat) :
    Option.Rel y.Routines (t.routine? n count) (t.routine? n count) := by
  cases hr : t.routine? n count with
  | none => exact .none
  | some r => exact .some ⟨rfl, rfl, h.routines r (Table.mem_of_routine? hr).1⟩

/-! ### Nothing elsewhere -/

/-- All tables and registries are where they were. -/
def here (faults : Fault → Fault → Prop) (hf : ∀ f, faults f f)
    (streams : Encoding → Encoding → Prop)
    (takes : ∀ e e', streams e e' → ∀ t, e.takes t = true → e'.takes t = true) :
    Relocation where
  tables := Eq
  registries := Eq
  sort _ := True
  faults := faults
  unique := by rintro i j i' j' rfl rfl; rfl
  plain _ _ := trivial
  members _ := rfl
  fault := hf
  streams := streams
  takes := takes

section Here

variable {faults : Fault → Fault → Prop} {hf : ∀ f, faults f f}
  {streams : Encoding → Encoding → Prop}
  {takes : ∀ e e', streams e e' → ∀ t, e.takes t = true → e'.takes t = true}

theorem fits_same (n : Node) : n.Fits (here faults hf streams takes).code .same := by
  unfold Node.Fits
  split
  · trivial
  · exact .inr rfl
  · trivial

theorem passes_refl (p : Pass) : (here faults hf streams takes).Passes p p :=
  ⟨List.forall₂_same.mpr fun _ _ => rfl, rfl⟩

theorem fixes_here (t : Table) : (here faults hf streams takes).Fixes t where
  slots s _ := by
    refine ⟨⟨rfl, rfl, rfl, ?_⟩, rfl, trivial⟩
    cases s.var.home with
    | table id => exact .table rfl
    | block n => exact .block
  routines r _ :=
    .same (fun a _ _ vs _ => (a.does vs).within_of_forall (fun _ => trivial) fun _ => rfl)
      fun m p _ => ⟨passes_refl p, fun n _ => fits_same n⟩

/-- Stores with the same tables and registries agree, if their streams do. -/
theorem stores_here (htables : τ.tables = σ.tables) (hregistries : τ.registries = σ.registries)
    (houtput : τ.output = σ.output) (hstreams : streams σ.encoding τ.encoding) :
    (here faults hf streams takes).Stores σ τ where
  hasTable h := by
    cases h
    rw [Store.HasTable, Store.HasTable, htables]
  slots h := by
    cases h
    rw [Store.table, Store.table, htables]
    exact (fixes_here _).rel_slots
  routines h n count := by
    cases h
    rw [Store.table, Store.table, htables]
    exact (fixes_here _).rel_routine? n count
  types h n := by
    cases h
    rw [Store.type?, Store.type?, Store.registry, Store.registry, hregistries]
    cases List.find? _ _ with
    | none => exact .none
    | some t => exact .some rfl
  output := houtput
  encoding := hstreams

theorem stores_refl (σ : Store) (hstreams : streams σ.encoding σ.encoding) :
    (here faults hf streams takes).Stores σ σ :=
  stores_here rfl rfl rfl hstreams

theorem Cells.eq {v v' : Variable} (h : (here faults hf streams takes).Cells v v') : v' = v := by
  obtain ⟨n, tn, t, a⟩ := v
  obtain ⟨n', tn', t', b⟩ := v'
  obtain ⟨rfl, rfl, rfl, hh⟩ := h
  cases hh with
  | table hij =>
    cases hij
    rfl
  | block => rfl

/-- Where nothing is elsewhere, the variables are the same. -/
theorem Stores.sameValues (hstreams : ∀ {e e'}, streams e e' → e' = e)
    (h : (here faults hf streams takes).Stores σ τ) : σ.SameValues τ := by
  refine ⟨fun id => ?_, h.output, hstreams h.encoding⟩
  refine Eq.symm (List.forall₂_eq_eq_eq ▸ (h.slots (i := id) rfl).imp fun s s' hs => ?_)
  obtain ⟨v, x⟩ := s
  obtain ⟨v', x'⟩ := s'
  obtain ⟨hc, rfl, -⟩ := hs
  rw [show v' = v from hc.eq]

end Here

end Relocation

end Parlance
