/-
A source that needs no host runs alike under every host.

The run without a host and the run under some host hold the same values in the tables of their
own passes and the same methods there, and without a host there is nothing else to be found.  So
each lookup that succeeds without a host succeeds under every host, and finds the same; one that
fails is reported as an undefined name or as a wrong number of arguments, and of a run that stops
for that nothing is said.

Under the host only the pass's own table and the output change.
-/
import Parlance.Program
import Parlance.Proofs.Paired.Source
import Parlance.Proofs.Store.Functions
import Parlance.Proofs.Store.Variables

namespace Parlance

namespace Closed

open Value (Hostless)

/-- What matters to runs of which one has no host. -/
def code : Likeness where
  literals := Hostless
  renamings ν := ∀ n, Fault.binding (.duplicateName n) = .binding (.duplicateName (ν.name n))
  typeNames _ _ _ := True
  types _ _ := True
  bound _ _ := True
  callee _ _ := True

/-- Variables of the passes' own tables, of the same name. -/
structure Cells (p p' : Pass) (v v' : Variable) : Prop where
  name : v'.name = v.name
  home : v.home = .table p.scope.top
  home' : v'.home = .table p'.scope.top

/-- The same variable with the same value. -/
structure Slots (p p' : Pass) (s s' : Slot) : Prop where
  cells : Cells p p' s.var s'.var
  value : s.value = s'.value
  hostless : Hostless s.value

/-- The same printer, or methods of the two passes that are alike. -/
inductive Implements (p p' : Pass) : Option Implementation → Option Implementation → Prop
  | print : Implements p p' (some .print) (some .print)
  | method {m m' : Method} {ν : Renaming} (hν : code.renamings ν) (h : m.Alike code ν m') :
      Implements p p' (some (.method m p)) (some (.method m' p'))

/-- Functions of one name and one number of parameters that do the same. A method has as many
parameters as its function. -/
structure Routines (p p' : Pass) (r r' : Routine) : Prop where
  name : r'.function.name = r.function.name
  arity : r'.function.arity = r.function.arity
  implements : Implements p p' r.implementation? r'.implementation?
  parameters : ∀ m q, r.implementation? = some (.method m q) →
    m.parameters.length = r.function.arity

/-- The stores of a run without a host and of one with some host, both begun in the store `σ₀`. -/
structure Held (p p' : Pass) (σ₀ σ τ : Store) : Prop where
  outer : p.scope.outer = []
  top : σ.HasTable p.scope.top
  top' : τ.HasTable p'.scope.top
  /-- Without a host no type has members. -/
  members : ∀ t ∈ σ.registry p.registry,
    t.members ≠ p.scope.top ∧ σ.table t.members = Table.empty
  slots : List.Forall₂ (Slots p p') (σ.table p.scope.top).slots (τ.table p'.scope.top).slots
  routines : List.Forall₂ (Routines p p') (σ.table p.scope.top).routines
    (τ.table p'.scope.top).routines
  output : τ.output = σ.output
  encoding : τ.encoding = σ.encoding
  /-- The pass under the host has a table of its own, and leaves those that were there. -/
  fresh : ¬σ₀.HasTable p'.scope.top
  keeps : σ₀.Keeps τ

/-- The pairing of a run without a host and one with some host. -/
def pairing (p p' : Pass) (σ₀ : Store) : Pairing where
  stores := Held p p' σ₀
  passes q q' := q = p ∧ q' = p'
  cells := Cells p p'
  sort := Hostless
  faults f g := f = g
  excused f := f.kind = "UndefinedName" ∨ f.kind = "ArityMismatch"
  hosted _ := False

variable {p p' : Pass} {σ₀ σ τ : Store}

namespace Held

variable (h : Held p p' σ₀ σ τ)
include h

theorem slot? (n : Name) : Option.Rel (Slots p p') ((σ.table p.scope.top).slot? n)
    ((τ.table p'.scope.top).slot? n) :=
  forall₂_find? (fun {s s'} hs => by rw [hs.cells.name]) h.slots

theorem routine? (n : Name) (count : Nat) :
    Option.Rel (Routines p p') ((σ.table p.scope.top).routine? n count)
      ((τ.table p'.scope.top).routine? n count) :=
  forall₂_find? (fun {r r'} hr => by rw [hr.name, hr.arity]) h.routines

/-- Both passes change their own tables, and leave the rest as it is. -/
theorem modifyTop {f f' : Table → Table}
    (hslots : List.Forall₂ (Slots p p') (f (σ.table p.scope.top)).slots
      (f' (τ.table p'.scope.top)).slots)
    (hroutines : List.Forall₂ (Routines p p') (f (σ.table p.scope.top)).routines
      (f' (τ.table p'.scope.top)).routines) :
    Held p p' σ₀ (σ.modifyTable p.scope.top f) (τ.modifyTable p'.scope.top f') where
  outer := h.outer
  top := σ.hasTable_modifyTable.mpr h.top
  top' := τ.hasTable_modifyTable.mpr h.top'
  members t ht := by
    obtain ⟨hne, hempty⟩ := h.members t ht
    exact ⟨hne, (σ.table_modifyTable_of_ne hne f).trans hempty⟩
  slots := by rwa [Store.table_modifyTable_self h.top, Store.table_modifyTable_self h.top']
  routines := by rwa [Store.table_modifyTable_self h.top, Store.table_modifyTable_self h.top']
  output := h.output
  encoding := h.encoding
  fresh := h.fresh
  keeps := h.keeps.modifyTable h.fresh f'

theorem setValue {v v' : Variable} {x : Value} (hv : Cells p p' v v') (hx : Hostless x) :
    Held p p' σ₀ (σ.setValue v x) (τ.setValue v' x) := by
  simp only [Store.setValue, hv.home, hv.home']
  refine h.modifyTop ?_ h.routines
  simp only [Table.setValue]
  rw [List.forall₂_map_left_iff, List.forall₂_map_right_iff]
  refine h.slots.imp fun s s' hs => ?_
  rw [hs.cells.name, hv.name]
  split
  · exact ⟨hs.cells, rfl, hx⟩
  · exact hs

end Held

/-! ### Lookups without a host -/

theorem kind_of_scopeVariable {scope : Scope} {n : Name} {f : BindingFault}
    (h : σ.scopeVariable scope n = .error f) : f.kind = "UndefinedName" := by
  unfold Store.scopeVariable at h
  split at h <;> cases h
  rfl

theorem kind_of_scopeFunction {scope : Scope} {n : Name} {count : Nat} {f : BindingFault}
    (h : σ.scopeFunction scope n count = .error f) :
    f.kind = "UndefinedName" ∨ f.kind = "ArityMismatch" := by
  unfold Store.scopeFunction at h
  split at h
  · cases h
  · split at h <;> cases h
    · exact .inr rfl
    · exact .inl rfl

/-- A value that is no object has no members without a host. -/
theorem Held.members_of_value (h : Held p p' σ₀ σ τ) {v : Value} (hv : Hostless v) :
    (∃ f, σ.membersOfValue p.registry v = .error f ∧ f.kind = "UndefinedName") ∨
      ∃ id, σ.membersOfValue p.registry v = .ok id ∧ σ.table id = Table.empty := by
  have named : σ.membersOfValue p.registry v = (σ.type p.registry v.kind).map Ty.members := by
    cases v with
    | object o => exact absurd rfl (hv o)
    | _ => rfl
  rw [named]
  unfold Store.type
  split
  · next t ht => exact .inr ⟨_, rfl, (h.members t (List.mem_of_find?_eq_some ht)).2⟩
  · exact .inl ⟨_, rfl, rfl⟩

/-- So whatever is looked up in its members is not found. -/
theorem Held.reads_member (h : Held p p' σ₀ σ τ) {v : Value} (hv : Hostless v) {α β : Type}
    {R : α → β → Prop} {look : TableId → Except BindingFault α} {r' : Except BindingFault β}
    (hlook : ∀ id, σ.table id = Table.empty → ∃ f, look id = .error f ∧ f.kind = "UndefinedName") :
    (pairing p p' σ₀).Reads R (σ.membersOfValue p.registry v >>= look) r' := by
  rcases h.members_of_value hv with ⟨f, hf, hkind⟩ | ⟨id, hid, hempty⟩
  · rw [hf]
    exact .excused (.inl hkind)
  · obtain ⟨f, hf, hkind⟩ := hlook id hempty
    rw [hid]
    simp only [bind, Except.bind, hf]
    exact .excused (.inl hkind)

/-- **What is found without a host is found under every host**, and otherwise the fault is one of
those that are excused. -/
theorem pairing_lawful (p p' : Pass) (σ₀ : Store) : (pairing p p' σ₀).Lawful where
  plain _ h := h
  fault _ := rfl
  write t := Pairing.together_write rfl Held.encoding fun h => ⟨h.outer, h.top, h.top', h.members,
    h.slots, h.routines, congrArg (· ++ t) h.output, h.encoding, h.fresh,
    ⟨h.keeps.size, h.keeps.table⟩⟩
  report r h := ⟨h.outer, h.top, h.top', h.members, h.slots, h.routines, h.output, h.encoding,
    h.fresh, ⟨h.keeps.size, h.keeps.table⟩⟩
  setValue h hv hx := h.setValue hv hx
  declareVariable {σ τ q q' x} n h hp hx := by
    obtain ⟨rfl, rfl⟩ := hp
    unfold Store.declareVariable
    have hslot := h.slot? n
    cases hs : (σ.table q.scope.top).slot? n with
    | some s =>
      obtain ⟨s', hs', -⟩ := exists_of_rel hslot hs
      simp only [hs']
      exact .fault rfl
    | none =>
      simp only [none_of_rel hslot hs]
      refine .ok (h.modifyTop ?_ h.routines)
      exact List.rel_append h.slots (.cons ⟨⟨rfl, rfl, rfl⟩, rfl, hx⟩ .nil)
  declareMethod {σ τ q q' ν m m'} types result h hp hν hm htypes := by
    obtain ⟨rfl, rfl⟩ := hp
    unfold Store.declareFunction
    have hroutine := h.routine? m.name types.length
    cases hr : (σ.table q.scope.top).routine? m.name types.length with
    | some r =>
      obtain ⟨r', hr', -⟩ := exists_of_rel hroutine hr
      simp only [hr']
      exact .fault rfl
    | none =>
      simp only [none_of_rel hroutine hr]
      refine .ok (h.modifyTop h.slots ?_)
      refine List.rel_append h.routines (.cons ⟨rfl, rfl, .method hν hm, ?_⟩ .nil)
      rintro _ _ ⟨⟩
      exact htypes.symm
  scopeVariable {σ τ q q'} n h hp := by
    obtain ⟨rfl, rfl⟩ := hp
    cases hs : σ.scopeVariable q.scope n with
    | error f => exact .excused (.inl (kind_of_scopeVariable hs))
    | ok s =>
      obtain ⟨s', hs', hS⟩ := exists_of_rel (h.slot? n) ((σ.scopeVariable_alone h.outer).mp hs)
      have found : τ.scopeVariable q'.scope n = .ok s' := by
        rw [Store.scopeVariable_ok, Scope.tables, Store.findVariable_cons, hs', Option.some_or]
      rw [found]
      exact .ok ⟨hS.value, hS.hostless, hS.cells⟩
  scopeFunction {σ τ q q'} n count h hp := by
    obtain ⟨rfl, rfl⟩ := hp
    cases hr : σ.scopeFunction q.scope n count with
    | error f => exact .excused (kind_of_scopeFunction hr)
    | ok r =>
      have hfound := (σ.scopeFunction_alone h.outer).mp hr
      obtain ⟨r', hr', hR⟩ := exists_of_rel (h.routine? n count) hfound
      have found : τ.scopeFunction q'.scope n count = .ok r' := by
        rw [Store.scopeFunction_ok, Scope.tables, Store.findFunction_cons, hr', Option.some_or]
      rw [found]
      refine .ok ⟨hR.name.symm, ?_⟩
      have implements := hR.implements
      have parameters := hR.parameters
      generalize r.implementation? = i at implements parameters
      generalize r'.implementation? = i' at implements
      cases implements with
      | print => exact .print
      | method hν hm =>
        -- A call that is found has an argument to each parameter, so that all are declared.
        refine .method ⟨rfl, rfl⟩ hν hm.parameters (fun n hn => ⟨hm.own n hn, ?_⟩) hm.body
        exact Nat.le_of_eq ((parameters _ _ rfl).trans (Table.mem_of_routine? hfound).2.2)
  memberVariable {σ τ q q' v} n h hp hv := by
    obtain ⟨rfl, rfl⟩ := hp
    exact h.reads_member hv fun id hempty => ⟨_, by rw [Store.memberVariable, hempty]; rfl, rfl⟩
  memberFunction {σ τ q q' v} n count h hp hv := by
    obtain ⟨rfl, rfl⟩ := hp
    exact h.reads_member hv fun id hempty => ⟨_, by rw [Store.memberFunction, hempty]; rfl, rfl⟩
  host _ h := h.elim

end Closed

end Parlance
