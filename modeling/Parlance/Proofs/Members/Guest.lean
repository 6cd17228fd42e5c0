/-
A program on the premises of a host.

Checking and running build their scopes apart, each inside that of the host.  A `Guest` brings them
together: the table that the check has built up by some point, and the pass that evaluates.  A place
of the check is covered by the guest when its own table has the same variables, and of the functions
the first few.  A store models the guest when the premises are kept in it, and the evaluator's own
table has the same variables, with values of their types, and the same functions, each of them
`print` or a method whose body passed the check in a place that is covered.

Through a receiver the check and the evaluation look into different tables, and a function of the
host may be hidden by a method that comes later.  The conditions under which this makes no
difference are put on the nodes of the tree.
-/
import Parlance.Proofs.Kinds.Frames
import Parlance.Proofs.Members.Premises
import Parlance.Syntax.Traversal

namespace Parlance

/-- The pass works in a scope inside that of the premises, and asks their registry. -/
structure Pass.On (pass : Pass) (p : Premises) : Prop where
  registry : pass.registry = p.registry
  outer : pass.scope.outer = p.scope

/-- Both functions take the same arguments and have the same result, as far as types go. -/
def Function.SameSignature (f g : Function) : Prop :=
  f.parameterTypes = g.parameterTypes ∧ f.returnType = g.returnType

/-- What is looked up through a receiver has one type, or one signature, wherever it may be looked
up. -/
def Node.Shared (p : Premises) : Node → Prop
  | .expr (.member receiver name (some v) _) => ∀ t, receiver.type? = some t →
    p.Shares t (p.store.memberType? name) v.type
  | .expr (.memberCall receiver name arguments (some f) _) => ∀ t, receiver.type? = some t →
    p.Shares t (p.store.memberSignature? name (arguments.length + 1)) f.memberSignature
  | _ => True

/-- What the check has built up, and the pass that evaluates, on the premises of a host. -/
structure Guest where
  premises : Premises
  sound : premises.Sound
  /-- The table that the checking pass has built up. -/
  table : Table
  distinct : table.Distinct
  /-- The pass that evaluates. -/
  pass : Pass
  on : pass.On premises
  fresh : ¬premises.store.HasTable pass.scope.top

namespace Guest

variable (w : Guest)

/-- A call means the same whenever the guest's table has the function, if it has it at all. -/
def Unhidden : Node → Prop
  | .expr (.call name arguments (some f) _) => ∀ s,
    w.table.routine? name arguments.length = some s → s.function.SameSignature f
  | _ => True

/-- The nodes are such that the check and the evaluation look up the same. -/
def Minds (nodes : List Node) : Prop :=
  ∀ n ∈ nodes, n.Shared w.premises ∧ w.Unhidden n

/-- All that the place knows outside of its blocks is in the guest's table or on the premises. -/
structure Covers (c : Context) : Prop where
  on : c.pass.On w.premises
  same : w.premises.Same c.store
  slots : (c.store.table c.pass.scope.top).slots = w.table.slots
  routines : (c.store.table c.pass.scope.top).routines <+: w.table.routines

/-- The second variable is what the first one is at run time. -/
structure KeepsSlot (s r : Slot) : Prop where
  name : r.var.name = s.var.name
  home : r.var.home = .table w.pass.scope.top
  value : w.premises.Fits s.var.type r.value

/-- The body of a method passed the check in a covered place, for that function. -/
inductive Typed : Method → Function → Prop
  | intro {m : Method} {f : Function} {c : Context} {block : List Variable} {types : List Ty}
      {result : Ty} (hbound : m.bound = some f) (hc : w.Covers c)
      (hl : m.parameters.length = types.length)
      (hp : f.parameterTypes = types.map some) (hr : f.returnType = some result)
      (hb : parameterBlock (m.parameters.zip types) [] = .ok block) (hblocks : c.blocks = [block])
      (hret : c.returns? = some result) (hs : Stmt.AllTyped c m.body)
      (hmind : w.Minds (walkStmts m.body)) : Typed m f

/-- The second function is what the first one is at run time. -/
inductive Implements (s : Routine) : Routine → Prop
  | print {f : Function} (hn : f.name = s.function.name) (ha : f.arity = s.function.arity)
      (hr : s.function.returnType = some Builtin.nil.type) : Implements s ⟨f, some .print⟩
  | method {f : Function} {m : Method} (hn : f.name = s.function.name)
      (ha : f.arity = s.function.arity) (hm : w.Typed m s.function) :
      Implements s ⟨f, some (.method m w.pass)⟩

/-- The premises are kept, and the evaluator's own table is what the guest's table is at run
time. -/
structure Models (σ : Store) : Prop where
  kept : w.premises.Kept σ
  top : σ.HasTable w.pass.scope.top
  slots : List.Forall₂ w.KeepsSlot w.table.slots (σ.table w.pass.scope.top).slots
  routines : List.Forall₂ w.Implements w.table.routines (σ.table w.pass.scope.top).routines

/-- The function, called with these arguments, answers a value of that type: it is one of the own
table, or one that the host vouches for. -/
inductive Answers (r : Routine) (arguments : List Value) : Option Ty → Prop
  | own {s : Routine} (hi : w.Implements s r)
      (ha : List.Forall₂ w.premises.Fits s.function.parameterTypes arguments) :
      Answers r arguments s.function.returnType
  | host (h : w.premises.Keeps r arguments) : Answers r arguments r.function.returnType

/-- The variable is what the check has taken for one of that type: it holds such a value, and may
be given any. -/
structure Serves (t : Option Ty) (s : Slot) : Prop where
  value : w.premises.Fits t s.value
  set : ∀ {τ x}, w.Models τ → w.premises.Fits t x → w.Models (τ.setValue s.var x)

variable {w}

/-! ### Nodes -/

namespace Minds

variable {nodes more : List Node} {n : Node}

theorem left (h : w.Minds (nodes ++ more)) : w.Minds nodes :=
  (List.forall_mem_append.mp h).1

theorem right (h : w.Minds (nodes ++ more)) : w.Minds more :=
  (List.forall_mem_append.mp h).2

theorem tail (h : w.Minds (n :: nodes)) : w.Minds nodes :=
  (List.forall_mem_cons.mp h).2

theorem head (h : w.Minds (n :: nodes)) : n.Shared w.premises ∧ w.Unhidden n :=
  (List.forall_mem_cons.mp h).1

end Minds

/-! ### Places -/

theorem Covers.enter {c : Context} (h : w.Covers c) (block : List Variable) :
    w.Covers (c.enter block) :=
  ⟨h.on, h.same, h.slots, h.routines⟩

theorem Covers.extend {c : Context} (h : w.Covers c) (declared : Option Variable) :
    w.Covers (c.extend declared) := by
  cases declared with
  | none => exact h
  | some v => exact ⟨h.on, h.same, h.slots, h.routines⟩

/-! ### Stores -/

theorem Implements.name {s r : Routine} (h : w.Implements s r) :
    r.function.name = s.function.name := by
  cases h with
  | print hn _ _ => exact hn
  | method hn _ _ => exact hn

theorem Implements.arity {s r : Routine} (h : w.Implements s r) :
    r.function.arity = s.function.arity := by
  cases h with
  | print _ ha _ => exact ha
  | method _ ha _ => exact ha

/-- The evaluator's own table is none of the premises. -/
theorem ne_top {id : TableId} (hid : w.premises.Has id) : id ≠ w.pass.scope.top :=
  fun he => w.fresh (he ▸ w.sound.kept.hasTable id hid)

namespace Models

variable {σ : Store} (h : w.Models σ)

include h

theorem rel_slot? (name : Name) :
    (w.table.slot? name).Rel w.KeepsSlot ((σ.table w.pass.scope.top).slot? name) :=
  forall₂_find? (fun {a b} (hab : w.KeepsSlot a b) => by rw [hab.name]) h.slots

theorem rel_routine? (name : Name) (arity : Nat) :
    (w.table.routine? name arity).Rel w.Implements
      ((σ.table w.pass.scope.top).routine? name arity) :=
  forall₂_find? (fun {a b} (hab : w.Implements a b) => by rw [hab.name, hab.arity]) h.routines

/-- Tables of the premises are changed, and the premises are kept. -/
theorem of_own {τ : Store} (hk : w.premises.Kept τ) (hsize : σ.tables.size ≤ τ.tables.size)
    (ht : τ.table w.pass.scope.top = σ.table w.pass.scope.top) : w.Models τ :=
  ⟨hk, Nat.lt_of_lt_of_le h.top hsize, ht ▸ h.slots, ht ▸ h.routines⟩

theorem write (t : Text) : w.Models (σ.write t) :=
  h.of_own (h.kept.of_other rfl (Nat.le_refl _) fun _ _ => rfl) (Nat.le_refl _) rfl

theorem report (record : LogRecord) : w.Models (σ.report record) :=
  h.of_own (h.kept.of_other rfl (Nat.le_refl _) fun _ _ => rfl) (Nat.le_refl _) rfl

/-- Assigning a value of its type to a variable of the guest's table. -/
theorem setValue_own {v : Variable} {s : Slot} {x : Value} (hs : w.table.slot? v.name = some s)
    (hv : v.home = .table w.pass.scope.top) (hx : w.premises.Fits s.var.type x) :
    w.Models (σ.setValue v x) := by
  have hsize : (σ.setValue v x).tables.size = σ.tables.size :=
    (Store.SameFunctions.setValue σ v x).size
  refine ⟨h.kept.of_other ?_ (Nat.le_of_eq hsize.symm) fun id hid => ?_,
    σ.hasTable_setValue.mpr h.top, ?_, ?_⟩
  · rw [Store.setValue, hv]
    rfl
  · refine (σ.table_setValue v x id).resolve_right fun hhome => ?_
    cases hv.symm.trans hhome.1
    exact ne_top hid rfl
  · rcases σ.table_setValue v x w.pass.scope.top with ht | ⟨-, ht⟩
    · rw [ht]
      exact h.slots
    · rw [ht]
      refine List.forall₂_map_right_iff.mpr (List.forall₂_iff_zip.mpr ⟨h.slots.length_eq, ?_⟩)
      intro s' r' hmem
      have hk := List.forall₂_zip h.slots hmem
      by_cases hn : r'.var.name = v.name
      · -- each variable of the guest's table is the one its name finds, so `s'` is `s`
        have hs' := w.distinct.slots s' (List.of_mem_zip hmem).1
        rw [← hk.name, hn, hs] at hs'
        cases hs'
        rw [if_pos (by simpa using hn)]
        exact ⟨hk.name, hk.home, hx⟩
      · rw [if_neg (by simpa using hn)]
        exact hk
  · rw [Store.routines_setValue]
    exact h.routines

/-- Assigning a value of its type to a variable of the premises. -/
theorem setValue_host {id : TableId} (hid : w.premises.Has id) {v : Variable}
    (hv : v ∈ w.premises.store.vars id) {x : Value} (hx : w.premises.Fits v.type x) :
    w.Models (σ.setValue v x) := by
  have hsize : (σ.setValue v x).tables.size = σ.tables.size :=
    (Store.SameFunctions.setValue σ v x).size
  refine h.of_own (h.kept.setValue w.sound hid hv hx) (Nat.le_of_eq hsize.symm) ?_
  refine (σ.table_setValue v x _).resolve_right fun hhome => ?_
  obtain ⟨s, hs, rfl⟩ := List.mem_map.mp hv
  cases ((w.sound.keyed id hid).slotHome s hs).symm.trans hhome.1
  exact ne_top hid rfl

/-! ### What is found -/

theorem serves_host {id : TableId} (hid : w.premises.Has id) {s : Slot}
    (hs : s ∈ (σ.table id).slots) : w.Serves s.var.type s := by
  refine ⟨h.kept.values id hid s hs, fun hτ hx => hτ.setValue_host hid ?_ hx⟩
  rw [← h.kept.vars id hid]
  exact List.mem_map_of_mem hs

/-- A function that is found in the scope is one that the guest's table has, or else what the
scope around it has. -/
theorem scopeFunction {name : Name} {count : Nat} {r : Routine}
    (hr : σ.scopeFunction w.pass.scope name count = .ok r) :
    (∃ s, w.table.routine? name count = some s ∧ w.Implements s r) ∨
      w.table.routine? name count = none ∧
        w.premises.store.findFunction name count w.premises.scope = some r := by
  rw [Store.scopeFunction_ok, Scope.tables, w.on.outer, Store.findFunction_cons] at hr
  cases hs : w.table.routine? name count with
  | some s =>
    obtain ⟨r', hr', hi⟩ := exists_of_rel (h.rel_routine? name count) hs
    rw [hr', Option.some_or] at hr
    cases hr
    exact .inl ⟨s, rfl, hi⟩
  | none =>
    rw [none_of_rel (h.rel_routine? name count) hs, Option.none_or] at hr
    refine .inr ⟨rfl, ?_⟩
    rwa [Store.findFunction_congr fun id hid => h.kept.routines id (.scope hid)] at hr

/-- A function that is found for no arguments answers without any. -/
theorem answers_nothing {name : Name} {r : Routine}
    (hr : σ.scopeFunction w.pass.scope name 0 = .ok r) : ∃ t, w.Answers r [] t := by
  rcases h.scopeFunction hr with ⟨s, hs, hi⟩ | ⟨-, hfound⟩
  · have hp := List.length_eq_zero_iff.mp (Table.mem_of_routine? hs).2.2
    exact ⟨_, .own hi (hp ▸ .nil)⟩
  · obtain ⟨id, hid, hmem, -, ha⟩ := Store.mem_of_findFunction hfound
    have hp := List.length_eq_zero_iff.mp ha
    exact ⟨_, .host (w.sound.functions id hid r hmem [] (hp ▸ .nil))⟩

end Models

/-! ### What a place finds -/

theorem KeepsSlot.serves {s r : Slot} (hk : w.KeepsSlot s r)
    (hs : w.table.slot? r.var.name = some s) : w.Serves s.var.type r :=
  ⟨hk.value, fun hτ hx => hτ.setValue_own hs hk.home hx⟩

namespace Covers

variable {c : Context} (h : w.Covers c) {σ : Store} {name : Name}

include h

/-- Outside of the blocks, a variable that a name means is found in the scope. -/
theorem scopeVariable (hm : w.Models σ) {v : Variable} (hv : c.variableOf name = .ok v)
    (hb : c.blocks.find? name = none) {r : Slot}
    (hr : σ.scopeVariable w.pass.scope name = .ok r) : w.Serves v.type r := by
  obtain hv | ⟨-, s, hs, rfl⟩ := Context.variableOf_ok.mp hv
  · cases hb.symm.trans hv
  have hown : (c.store.table c.pass.scope.top).slot? name = w.table.slot? name := by
    rw [Table.slot?, h.slots, Table.slot?]
  rw [Store.scopeVariable_ok, Scope.tables, h.on.outer, Store.findVariable_cons, hown] at hs
  rw [Store.scopeVariable_ok, Scope.tables, w.on.outer, Store.findVariable_cons] at hr
  cases hfirst : w.table.slot? name with
  | some a =>
    obtain ⟨r', hr', hk⟩ := exists_of_rel (hm.rel_slot? name) hfirst
    rw [hfirst, Option.some_or] at hs
    rw [hr', Option.some_or] at hr
    cases hs
    cases hr
    refine hk.serves ?_
    rw [hk.name, (Table.mem_of_slot? hfirst).2]
    exact hfirst
  | none =>
    rw [hfirst, Option.none_or] at hs
    rw [none_of_rel (hm.rel_slot? name) hfirst, Option.none_or] at hr
    have hvars : ∀ id ∈ w.premises.scope, σ.vars id = c.store.vars id := fun id hid =>
      (hm.kept.vars id (.scope hid)).trans (h.same.vars id (.scope hid)).symm
    obtain ⟨r', hr', id, hid, -, hslot, hvar⟩ := Store.exists_twin hvars hs
    cases hr.symm.trans hr'
    rw [← hvar]
    exact hm.serves_host (.scope hid) (Table.mem_of_slot? hslot).1

/-- A function that a name means is found in the scope, or one that hides it and has the same
signature. -/
theorem scopeFunction (hm : w.Models σ) {count : Nat} {f : Function}
    (hf : c.functionOf name count = .ok f)
    (hu : ∀ s, w.table.routine? name count = some s → s.function.SameSignature f)
    {vs : List Value} (hvs : List.Forall₂ w.premises.Fits f.parameterTypes vs) {r : Routine}
    (hr : σ.scopeFunction w.pass.scope name count = .ok r) : w.Answers r vs f.returnType := by
  rcases hm.scopeFunction hr with ⟨s, hs, hi⟩ | ⟨hnone, hfound⟩
  · obtain ⟨hparameters, hresult⟩ := hu s hs
    rw [← hresult]
    exact .own hi (hparameters ▸ hvs)
  · obtain ⟨s, hs, rfl⟩ := Context.functionOf_ok.mp hf
    have hown : (c.store.table c.pass.scope.top).routine? name count = none := by
      obtain ⟨more, hmore⟩ := h.routines
      rw [Table.routine?, ← hmore, List.find?_append] at hnone
      exact (Option.or_eq_none_iff.mp hnone).1
    rw [Scope.tables, h.on.outer, Store.findFunction_cons, hown, Option.none_or,
      Store.findFunction_congr fun id hid => h.same.routines id (.scope hid), hfound] at hs
    cases hs
    obtain ⟨id, hid, hmem, -⟩ := Store.mem_of_findFunction hfound
    exact .host (w.sound.functions id hid r hmem vs hvs)

/-! Through a receiver. -/

/-- The members that the check looks into for a registered type are those of the premises. -/
theorem membersOfType {t u : Ty} (hu : w.premises.type? u.name = some u) (hn : u.name = t.name) :
    c.store.membersOfType c.pass.registry t = u.members := by
  rw [Store.membersOfType, h.on.registry, h.same.type?, ← hn, hu]

section Variables

variable {t : Ty} {v : Variable} {x : Value} (hv : c.memberOf t name = .ok v)
  (hs : w.premises.Shares t (w.premises.store.memberType? name) v.type)
  (hx : w.premises.Fits (some t) x)

include hv hs hx

theorem exists_memberType :
    ∃ u, w.premises.type? u.name = some u ∧
      w.premises.store.membersOfValue w.premises.registry x = .ok u.members ∧
      (x.kind ≠ Builtin.nil.name → w.premises.store.memberType? name u.members = some v.type) ∧
      ∀ b, w.premises.store.memberType? name u.members = some b → b = v.type := by
  refine w.sound.shared hx (fun u hu hn => ?_) hs
  obtain ⟨s, hslot, rfl⟩ := Context.memberOf_ok.mp hv
  rw [h.membersOfType hu hn] at hslot
  rw [← h.same.memberType? (.members hu), Store.memberType?, hslot]
  rfl

/-- Every value that is not of kind `Nil` has the member variable. -/
theorem memberVariable_found (hm : w.Models σ) (hne : x.kind ≠ Builtin.nil.name) :
    ∃ id s, σ.membersOfValue w.pass.registry x = .ok id ∧ σ.memberVariable id name = .ok s := by
  obtain ⟨u, hu, hmembers, hfound, -⟩ := h.exists_memberType hv hs hx
  have htype := hfound hne
  rw [← hm.kept.memberType? (.members hu)] at htype
  obtain ⟨s, hslot, -⟩ := Option.map_eq_some_iff.mp htype
  refine ⟨u.members, s, ?_, σ.memberVariable_ok.mpr hslot⟩
  rw [w.on.registry, hm.kept.membersOfValue, hmembers]

/-- What is found is of the type that the check has found, also for `Nil`. -/
theorem memberVariable_serves {τ : Store} (hm : w.Models σ) (hm' : w.Models τ) {id : TableId}
    (hid : σ.membersOfValue w.pass.registry x = .ok id) {s : Slot}
    (hslot : τ.memberVariable id name = .ok s) : w.Serves v.type s := by
  obtain ⟨u, hu, hmembers, -, hsame⟩ := h.exists_memberType hv hs hx
  rw [w.on.registry, hm.kept.membersOfValue, hmembers] at hid
  cases hid
  rw [Store.memberVariable_ok] at hslot
  have htype : τ.memberType? name u.members = some s.var.type := by
    rw [Store.memberType?, hslot]
    rfl
  rw [hm'.kept.memberType? (.members hu)] at htype
  rw [← hsame _ htype]
  exact hm'.serves_host (.members hu) (Table.mem_of_slot? hslot).1

end Variables

section Functions

variable {t : Ty} {f : Function} {count : Nat} {x : Value}
  (hf : c.memberFunctionOf t name count = .ok f)
  (hs : w.premises.Shares t (w.premises.store.memberSignature? name count) f.memberSignature)
  (hx : w.premises.Fits (some t) x)

include hf hs hx

theorem exists_memberSignature :
    ∃ u, w.premises.type? u.name = some u ∧
      w.premises.store.membersOfValue w.premises.registry x = .ok u.members ∧
      (x.kind ≠ Builtin.nil.name →
        w.premises.store.memberSignature? name count u.members = some f.memberSignature) ∧
      ∀ b, w.premises.store.memberSignature? name count u.members = some b →
        b = f.memberSignature := by
  refine w.sound.shared hx (fun u hu hn => ?_) hs
  obtain ⟨r, hr, rfl⟩ := Context.memberFunctionOf_ok.mp hf
  rw [h.membersOfType hu hn] at hr
  rw [← h.same.memberSignature? (.members hu), Store.memberSignature?, hr]
  rfl

/-- Every value that is not of kind `Nil` has the member function. -/
theorem memberFunction_found (hm : w.Models σ) (hne : x.kind ≠ Builtin.nil.name) :
    ∃ id r, σ.membersOfValue w.pass.registry x = .ok id ∧
      σ.memberFunction id name count = .ok r := by
  obtain ⟨u, hu, hmembers, hfound, -⟩ := h.exists_memberSignature hf hs hx
  have hsignature := hfound hne
  rw [← hm.kept.memberSignature? (.members hu)] at hsignature
  obtain ⟨r, hr, -⟩ := Option.map_eq_some_iff.mp hsignature
  refine ⟨u.members, r, ?_, σ.memberFunction_ok.mpr hr⟩
  rw [w.on.registry, hm.kept.membersOfValue, hmembers]

/-- What is found answers as the check has found, also for `Nil`. -/
theorem memberFunction_answers {τ : Store} (hm : w.Models σ) (hm' : w.Models τ) {id : TableId}
    (hid : σ.membersOfValue w.pass.registry x = .ok id) {r : Routine}
    (hr : τ.memberFunction id name count = .ok r) {vs : List Value}
    (hvs : List.Forall₂ w.premises.Fits (f.parameterTypes.drop 1) vs) :
    w.Answers r (x :: vs) f.returnType := by
  obtain ⟨u, hu, hmembers, -, hsame⟩ := h.exists_memberSignature hf hs hx
  rw [w.on.registry, hm.kept.membersOfValue, hmembers] at hid
  cases hid
  rw [Store.memberFunction_ok] at hr
  have hsignature : τ.memberSignature? name count u.members = some r.function.memberSignature := by
    rw [Store.memberSignature?, hr]
    rfl
  rw [hm'.kept.memberSignature? (.members hu)] at hsignature
  obtain ⟨hparameters, hresult⟩ := Prod.mk.inj (hsame _ hsignature)
  have hmem : r ∈ (w.premises.store.table u.members).routines := by
    rw [← hm'.kept.routines u.members (.members hu)]
    exact (Table.mem_of_routine? hr).1
  have hany : w.premises.Fits (some Builtin.any.type) x :=
    hx.moved ⟨_, _, rfl, rfl, Ty.accepts_iff.mpr (.inr (.inl rfl))⟩
  rw [← hresult]
  exact .host (w.sound.members u hu r hmem x vs hmembers hany (hparameters ▸ hvs))

end Functions

end Covers

end Guest

end Parlance
