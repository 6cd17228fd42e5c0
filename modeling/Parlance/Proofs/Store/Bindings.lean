/-
Tables and scopes as a host works with them.

A host makes tables and scopes, each scope inside another or on its own, declares variables and
functions in them, and sets values, in whatever order and with whatever outcome.  Through all of
this each table is a map: a key is bound once, to what bears it, and for good.  So a declaration
has two outcomes, one binding more or none at all, and the key alone decides between them.

Looking up is a function of the store, and no step.  What it finds along a chain is the nearest
binding of its key, and when there is none, whether the name was seen with another number of
parameters anywhere on the chain decides what is reported.  Chains end because a scope is always
made after the one around it.
-/
import Mathlib.Logic.Relation
import Parlance.Proofs.Checking.Confined
import Parlance.Proofs.Paired.Relocation

namespace Parlance

namespace Table

/-- Setting a value leaves what other names find, and only sets the value of what its own finds. -/
theorem slot?_setValue (t : Table) (name other : Name) (x : Value) :
    (t.setValue name x).slot? other
      = (t.slot? other).map fun s => if other = name then { s with value := x } else s := by
  unfold slot? setValue
  induction t.slots with
  | nil => rfl
  | cons s rest ih =>
    by_cases hs : s.var.name = name <;> by_cases ho : s.var.name = other <;>
      simp_all

theorem Distinct.setValue {t : Table} (h : t.Distinct) (name : Name) (x : Value) :
    (t.setValue name x).Distinct := by
  refine ⟨fun s hs => ?_, h.routines⟩
  obtain ⟨s, hmem, rfl⟩ := List.mem_map.mp hs
  have hfound := h.slots s hmem
  by_cases hname : s.var.name = name
  · simp [hname, slot?_setValue, hname ▸ hfound]
  · simp [hname, slot?_setValue, hfound]

end Table

/-! ### Declaring -/

/-- How a declaration in a table ends: with a fault and nothing else if its key is bound, or else
with what it has declared and a store that has gained just these bindings. -/
inductive Store.Declared {α : Type} (σ : Store) (id : TableId) (bound : Prop)
    (fault : BindingFault) (a : α) (ss : List Slot) (rs : List Routine) :
    Except BindingFault (α × Store) → Prop
  | refused (h : bound) : Declared σ id bound fault a ss rs (.error fault)
  | added {τ : Store} (h : ¬bound) (hgains : σ.Gains id ss rs τ) :
      Declared σ id bound fault a ss rs (.ok (a, τ))

namespace Store

variable {σ τ υ : Store} {id : TableId}

theorem declareVariable_declared (h : σ.HasTable id) (name : Name) (type : Option Ty)
    (value : Value) (targetName : Option Text) :
    let v : Variable := ⟨name, (nonempty? targetName).or name, type, .table id⟩
    Declared σ id (∃ s, (σ.table id).slot? name = some s) (.duplicateName name) v [⟨v, value⟩] []
      (σ.declareVariable id name type value targetName) := by
  unfold declareVariable
  cases hs : (σ.table id).slot? name with
  | some s => exact .refused ⟨s, rfl⟩
  | none => exact .added (by simp) (.addSlot h _)

theorem declareFunction_declared (h : σ.HasTable id) (name : Name)
    (parameterTypes : List (Option Ty)) (returnType : Option Ty)
    (implementation? : Option Implementation) (targetName : Option Text) :
    let f : Function := ⟨name, (nonempty? targetName).or name, parameterTypes, returnType, id⟩
    Declared σ id (∃ r, (σ.table id).routine? name parameterTypes.length = some r)
      (.duplicateFunction name parameterTypes.length) f [] [⟨f, implementation?⟩]
      (σ.declareFunction id name parameterTypes returnType implementation? targetName) := by
  unfold declareFunction
  cases hr : (σ.table id).routine? name parameterTypes.length with
  | some r => exact .refused ⟨r, rfl⟩
  | none => exact .added (by simp) (.addRoutine h _)

/-- Something to declare. -/
inductive Declaration
  | slot (name : Name) (type : Option Ty) (value : Value) (targetName : Option Text)
  | routine (name : Name) (parameterTypes : List (Option Ty)) (returnType : Option Ty)
      (implementation? : Option Implementation) (targetName : Option Text)

/-- The store after a declaration has been tried. -/
def declared {α : Type} (σ : Store) : Except BindingFault (α × Store) → Store
  | .ok (_, τ) => τ
  | .error _ => σ

/-- The store after something has been declared in a table, if it could be. -/
def declare (σ : Store) (id : TableId) : Declaration → Store
  | .slot name type value targetName =>
    σ.declared (σ.declareVariable id name type value targetName)
  | .routine name parameterTypes returnType implementation? targetName =>
    σ.declared
      (σ.declareFunction id name parameterTypes returnType implementation? targetName)

/-- A declaration adds to its own table, or does nothing. -/
theorem declare_cases (h : σ.HasTable id) (d : Declaration) :
    σ.declare id d = σ ∨ ∃ ss rs, σ.Gains id ss rs (σ.declare id d) := by
  cases d with
  | slot name type value targetName =>
    have hdeclared := declareVariable_declared h name type value targetName
    dsimp only [declare]
    generalize σ.declareVariable id name type value targetName = r at hdeclared
    cases hdeclared with
    | refused => exact .inl rfl
    | added _ hgains => exact .inr ⟨_, _, hgains⟩
  | routine name parameterTypes returnType implementation? targetName =>
    have hdeclared := declareFunction_declared h name parameterTypes returnType implementation?
      targetName
    dsimp only [declare]
    generalize σ.declareFunction id name parameterTypes returnType implementation? targetName
      = r at hdeclared
    cases hdeclared with
    | refused => exact .inl rfl
    | added _ hgains => exact .inr ⟨_, _, hgains⟩

/-! ### What no step takes away -/

/-- All variables and functions of the first store are there in the second, in their places. -/
structure Widens (σ τ : Store) : Prop where
  size : σ.tables.size ≤ τ.tables.size
  vars : ∀ id, σ.vars id <+: τ.vars id
  routines : ∀ id, (σ.table id).routines <+: (τ.table id).routines

theorem Widens.refl (σ : Store) : σ.Widens σ :=
  ⟨Nat.le_refl _, fun _ => List.prefix_refl _, fun _ => List.prefix_refl _⟩

theorem Widens.trans (h : σ.Widens τ) (h' : τ.Widens υ) : σ.Widens υ :=
  ⟨Nat.le_trans h.size h'.size, fun id => (h.vars id).trans (h'.vars id),
    fun id => (h.routines id).trans (h'.routines id)⟩

theorem Widens.of_eq (hsize : σ.tables.size ≤ τ.tables.size) (hvars : τ.vars = σ.vars)
    (hroutines : ∀ id, (τ.table id).routines = (σ.table id).routines) : σ.Widens τ :=
  ⟨hsize, fun _ => hvars ▸ List.prefix_refl _, fun id => hroutines id ▸ List.prefix_refl _⟩

theorem vars_slot? (σ : Store) (id : TableId) (name : Name) :
    ((σ.table id).slot? name).map Slot.var = (σ.vars id).find? fun v => v.name == name := by
  rw [vars, List.find?_map]
  rfl

/-- A name keeps the variable that it is bound to. -/
theorem Widens.slot? (h : σ.Widens τ) {name : Name} {s : Slot}
    (hs : (σ.table id).slot? name = some s) :
    ∃ s', (τ.table id).slot? name = some s' ∧ s'.var = s.var := by
  obtain ⟨more, hmore⟩ := h.vars id
  have hvar : ((σ.table id).slot? name).map Slot.var = some s.var := by rw [hs, Option.map_some]
  rw [vars_slot?] at hvar
  refine Option.map_eq_some_iff.mp ?_
  rw [vars_slot?, ← hmore, List.find?_append, hvar, Option.some_or]

/-- A key keeps the function that it is bound to. -/
theorem Widens.routine? (h : σ.Widens τ) {name : Name} {arity : Nat} {r : Routine}
    (hr : (σ.table id).routine? name arity = some r) :
    (τ.table id).routine? name arity = some r := by
  obtain ⟨more, hmore⟩ := h.routines id
  unfold Table.routine? at hr ⊢
  rw [← hmore, List.find?_append, hr, Option.some_or]

theorem Gains.widens {ss : List Slot} {rs : List Routine} (h : Gains id ss rs σ τ) :
    σ.Widens τ := by
  refine ⟨Nat.le_of_eq h.size.symm, fun other => ?_, fun other => ?_⟩
  · by_cases ho : other = id
    · rw [ho, vars, vars, h.own, List.map_append]
      exact List.prefix_append _ _
    · have hsame : σ.vars other = τ.vars other := by rw [vars, vars, h.other other ho]
      exact hsame ▸ List.prefix_refl _
  · by_cases ho : other = id
    · rw [ho, h.own]
      exact List.prefix_append _ _
    · have hsame := h.other other ho
      exact congrArg Table.routines hsame ▸ List.prefix_refl _

theorem widens_declare (h : σ.HasTable id) (d : Declaration) : σ.Widens (σ.declare id d) := by
  rcases declare_cases h d with heq | ⟨_, _, hgains⟩
  · rw [heq]
    exact .refl σ
  · exact hgains.widens

theorem vars_newTable (σ : Store) : σ.newTable.2.vars = σ.vars :=
  funext fun id => by rw [vars, vars, σ.table_newTable_eq id]

theorem widens_newTable (σ : Store) : σ.Widens σ.newTable.2 :=
  .of_eq σ.keeps_newTable.size σ.vars_newTable fun id => by rw [σ.table_newTable_eq id]

theorem widens_setValue (σ : Store) (v : Variable) (x : Value) : σ.Widens (σ.setValue v x) := by
  refine .of_eq ?_ (σ.vars_setValue v x) (σ.routines_setValue v x)
  unfold setValue
  split
  · simp [modifyTable]
  · exact Nat.le_refl _

/-! ### One binding to a key -/

/-- A table is a map from keys: each binding is the one that its own key finds, and says that it
lives there. -/
structure Keyed (σ : Store) (id : TableId) : Prop where
  distinct : (σ.table id).Distinct
  slotHome : ∀ s ∈ (σ.table id).slots, s.var.home = .table id
  routineHome : ∀ r ∈ (σ.table id).routines, r.function.home = id

theorem keyed_opened (e : Encoding) (id : TableId) : (opened e).Keyed id := by
  have hempty := table_opened e id
  refine ⟨?_, ?_, ?_⟩
  · rw [hempty]
    exact Table.distinct_empty
  · rw [hempty]
    exact fun _ hs => (List.not_mem_nil hs).elim
  · rw [hempty]
    exact fun _ hr => (List.not_mem_nil hr).elim

theorem Keyed.of_eq (h : σ.Keyed id) (heq : τ.table id = σ.table id) : τ.Keyed id :=
  ⟨heq ▸ h.distinct, heq ▸ h.slotHome, heq ▸ h.routineHome⟩

theorem Keyed.addSlot (h : ∀ id, σ.Keyed id) {name targetName : Name} {type : Option Ty}
    {value : Value} (hfree : ¬∃ s, (σ.table id).slot? name = some s)
    (hgains : σ.Gains id [⟨⟨name, targetName, type, .table id⟩, value⟩] [] τ) (other : TableId) :
    τ.Keyed other := by
  by_cases ho : other = id
  · subst ho
    have hnone := Option.eq_none_iff_forall_ne_some.mpr fun s hs => hfree ⟨s, hs⟩
    have hown := hgains.own
    rw [List.append_nil] at hown
    obtain ⟨hdistinct, hslot, hroutine⟩ := h other
    refine ⟨hown ▸ hdistinct.addSlot hnone, ?_, ?_⟩
    · rw [hown]
      exact List.forall_mem_append.mpr ⟨hslot, by simp⟩
    · rw [hown]
      exact hroutine
  · exact (h other).of_eq (hgains.other other ho)

theorem Keyed.addRoutine (h : ∀ id, σ.Keyed id) {f : Function} {i : Option Implementation}
    (hfree : ¬∃ r, (σ.table id).routine? f.name f.arity = some r) (hhome : f.home = id)
    (hgains : σ.Gains id [] [⟨f, i⟩] τ) (other : TableId) : τ.Keyed other := by
  by_cases ho : other = id
  · subst ho
    have hnone := Option.eq_none_iff_forall_ne_some.mpr fun r hr => hfree ⟨r, hr⟩
    have hown := hgains.own
    rw [List.append_nil] at hown
    obtain ⟨hdistinct, hslot, hroutine⟩ := h other
    refine ⟨hown ▸ hdistinct.addRoutine hnone, ?_, ?_⟩
    · rw [hown]
      exact hslot
    · rw [hown]
      exact List.forall_mem_append.mpr ⟨hroutine, by simpa using hhome⟩
  · exact (h other).of_eq (hgains.other other ho)

theorem Keyed.declare (h : ∀ id, σ.Keyed id) (hid : σ.HasTable id) (d : Declaration)
    (other : TableId) : (σ.declare id d).Keyed other := by
  cases d with
  | slot name type value targetName =>
    have hdeclared := declareVariable_declared hid name type value targetName
    dsimp only [Store.declare]
    generalize σ.declareVariable id name type value targetName = r at hdeclared
    cases hdeclared with
    | refused => exact h other
    | added hfree hgains => exact .addSlot h hfree hgains other
  | routine name parameterTypes returnType implementation? targetName =>
    have hdeclared := declareFunction_declared hid name parameterTypes returnType implementation?
      targetName
    dsimp only [Store.declare]
    generalize σ.declareFunction id name parameterTypes returnType implementation? targetName
      = r at hdeclared
    cases hdeclared with
    | refused => exact h other
    | added hfree hgains => exact @addRoutine _ _ id h _ _ hfree rfl hgains other

theorem Keyed.setValue (h : σ.Keyed id) (v : Variable) (x : Value) :
    (σ.setValue v x).Keyed id := by
  rcases σ.table_setValue v x id with heq | ⟨-, heq⟩
  · exact h.of_eq heq
  · refine ⟨heq ▸ h.distinct.setValue v.name x, ?_, heq ▸ h.routineHome⟩
    rw [heq]
    intro s hs
    obtain ⟨s, hmem, rfl⟩ := List.mem_map.mp hs
    have hhome := h.slotHome s hmem
    split <;> exact hhome

/-- Setting the value of a variable changes what its own name finds in its own table, and there
nothing but the value. -/
theorem slot?_setValue_of_mem (h : σ.Keyed id) {v : Variable} (hv : v ∈ σ.vars id) (x : Value)
    (other : TableId) (name : Name) :
    ((σ.setValue v x).table other).slot? name
      = if other = id ∧ name = v.name then some ⟨v, x⟩ else (σ.table other).slot? name := by
  obtain ⟨s, hs, rfl⟩ := List.mem_map.mp hv
  have hset : σ.setValue s.var x = σ.modifyTable id fun t => t.setValue s.var.name x := by
    rw [setValue, h.slotHome s hs]
  have hid : σ.HasTable id := by
    by_contra hnone
    rw [table_of_not_hasTable hnone] at hs
    exact List.not_mem_nil hs
  rw [hset]
  by_cases ho : other = id
  · subst ho
    rw [table_modifyTable_self hid, Table.slot?_setValue]
    by_cases hname : name = s.var.name
    · subst hname
      rw [h.distinct.slots s hs]
      simp
    · simp [hname]
  · rw [table_modifyTable_of_ne σ ho]
    simp [ho]

/-! ### Looking up -/

/-- Along these tables, the first that binds anything binds this. -/
def Nearest {α : Type} (binds : Table → Option α) (σ : Store) (ids : List TableId) (a : α) : Prop :=
  ∃ nearer id further, ids = nearer ++ id :: further ∧ binds (σ.table id) = some a ∧
    ∀ other ∈ nearer, binds (σ.table other) = none

theorem findVariable_nearest {name : Name} {ids : List TableId} {s : Slot} :
    σ.findVariable name ids = some s ↔ Nearest (·.slot? name) σ ids s :=
  List.findSome?_eq_some_iff

theorem findFunction_nearest {name : Name} {arity : Nat} {ids : List TableId} {r : Routine} :
    σ.findFunction name arity ids = some r ↔ Nearest (·.routine? name arity) σ ids r :=
  List.findSome?_eq_some_iff

/-- A name is undefined exactly when no table on the chain binds a variable of that name. -/
theorem scopeVariable_error {scope : Scope} {name : Name} {f : BindingFault} :
    σ.scopeVariable scope name = .error f ↔
      f = .undefinedName name ∧ ∀ id ∈ scope.tables, (σ.table id).slot? name = none := by
  rw [← List.findSome?_eq_none_iff]
  change _ ↔ _ ∧ σ.findVariable name scope.tables = none
  unfold scopeVariable
  cases σ.findVariable name scope.tables <;> simp [eq_comm]

theorem anyBindsFunction_iff {name : Name} {ids : List TableId} :
    (ids.any fun id => (σ.table id).bindsFunction name) = true ↔
      ∃ id ∈ ids, ∃ count r, (σ.table id).routine? name count = some r := by
  rw [List.any_eq_true]
  exact exists_congr fun id => and_congr_right fun _ => Table.bindsFunction_iff

/-- When no table on the chain binds the key, the number of arguments is wrong if one of them binds
the name, and the function is undefined if none does. -/
theorem scopeFunction_error {scope : Scope} {name : Name} {arity : Nat} {f : BindingFault} :
    σ.scopeFunction scope name arity = .error f ↔
      (∀ id ∈ scope.tables, (σ.table id).routine? name arity = none) ∧
        (f = .arity name arity ∧
            (∃ id ∈ scope.tables, ∃ count r, (σ.table id).routine? name count = some r) ∨
          f = .undefinedFunction name ∧
            ∀ id ∈ scope.tables, ∀ count, (σ.table id).routine? name count = none) := by
  rw [← List.findSome?_eq_none_iff]
  change _ ↔ σ.findFunction name arity scope.tables = none ∧ _
  unfold scopeFunction
  cases σ.findFunction name arity scope.tables with
  | some r => simp
  | none =>
    have hseen := @anyBindsFunction_iff σ name scope.tables
    dsimp only
    by_cases hany : ∃ id ∈ scope.tables, ∃ count r, (σ.table id).routine? name count = some r
    · rw [if_pos (hseen.mpr hany)]
      constructor
      · rintro ⟨⟩
        exact ⟨rfl, .inl ⟨rfl, hany⟩⟩
      · rintro ⟨-, ⟨rfl, -⟩ | ⟨-, hnone⟩⟩
        · rfl
        · obtain ⟨id, hid, count, r, hr⟩ := hany
          cases hr.symm.trans (hnone id hid count)
    · rw [if_neg (mt hseen.mp hany)]
      constructor
      · rintro ⟨⟩
        exact ⟨rfl, .inr ⟨rfl, fun id hid count => Option.eq_none_iff_forall_ne_some.mpr
          fun r hr => hany ⟨id, hid, count, r, hr⟩⟩⟩
      · rintro ⟨-, ⟨-, hsome⟩ | ⟨rfl, -⟩⟩
        · exact (hany hsome).elim
        · rfl

end Store

/-! ### What a host does -/

/-- A store, and the scopes that have been made in it. -/
structure Workshop where
  store : Store
  scopes : List Scope

namespace Workshop

/-- Something that is done with tables and scopes. -/
inductive Operation
  | newTable
  | newScope (parent : Option Scope)
  | declare (id : TableId) (d : Store.Declaration)
  | setValue (v : Variable) (value : Value)

/-- It is about tables, scopes and variables that there are. -/
def Operation.Possible (w : Workshop) : Operation → Prop
  | newTable => True
  | newScope parent => ∀ p ∈ parent, p ∈ w.scopes
  | declare id _ => w.store.HasTable id
  | setValue v _ => ∃ id, v ∈ w.store.vars id

/-- What it leaves. -/
def Operation.apply (w : Workshop) : Operation → Workshop
  | newTable => { w with store := w.store.newTable.2 }
  | newScope parent =>
    let (scope, σ) := w.store.newScope parent
    ⟨σ, w.scopes ++ [scope]⟩
  | declare id d => { w with store := w.store.declare id d }
  | setValue v value => { w with store := w.store.setValue v value }

/-- The first workshop: a store with nothing but the reserved tables, and no scope yet. -/
def opened : Workshop := ⟨.initial, []⟩

/-- One thing done that is possible. -/
inductive Step (w : Workshop) : Workshop → Prop
  | step (op : Operation) (h : op.Possible w) : Step w (op.apply w)

/-- Things done one after the other. -/
abbrev Steps : Workshop → Workshop → Prop :=
  Relation.ReflTransGen Step

/-- Every table is a map from keys, and every scope is made of tables that are there, each younger
than those around it, which are the tables of a scope as well. -/
structure Sound (w : Workshop) : Prop where
  keyed : ∀ id, w.store.Keyed id
  tables : ∀ s ∈ w.scopes, ∀ id ∈ s.tables, w.store.HasTable id
  younger : ∀ s ∈ w.scopes, s.tables.Pairwise (· > ·)
  outer : ∀ s ∈ w.scopes, s.outer = [] ∨ ∃ p ∈ w.scopes, s.outer = p.tables

/-- The second workshop has all bindings and scopes of the first. -/
structure Widens (v w : Workshop) : Prop where
  store : v.store.Widens w.store
  scopes : v.scopes <+: w.scopes

theorem Widens.refl (w : Workshop) : w.Widens w :=
  ⟨.refl _, List.prefix_refl _⟩

theorem Widens.trans {u v w : Workshop} (h : u.Widens v) (h' : v.Widens w) : u.Widens w :=
  ⟨h.store.trans h'.store, h.scopes.trans h'.scopes⟩

theorem sound_opened : opened.Sound :=
  ⟨Store.keyed_opened .memory, nofun, nofun, nofun⟩

variable {v w : Workshop}

/-- Scopes stay what they are when only the store changes, and grows. -/
theorem Sound.of_store (h : w.Sound) {σ : Store} (hkeyed : ∀ id, σ.Keyed id)
    (hsize : w.store.tables.size ≤ σ.tables.size) : Sound ⟨σ, w.scopes⟩ :=
  ⟨hkeyed, fun s hs id hid => Nat.lt_of_lt_of_le (h.tables s hs id hid) hsize, h.younger, h.outer⟩

theorem Sound.newTable (h : w.Sound) : Sound ⟨w.store.newTable.2, w.scopes⟩ :=
  h.of_store (fun id => (h.keyed id).of_eq (w.store.table_newTable_eq id))
    w.store.keeps_newTable.size

/-- A new scope is inside one that is there, and so younger than all around it. -/
theorem Sound.newScope (h : w.Sound) {parent : Option Scope}
    (hparent : ∀ p ∈ parent, p ∈ w.scopes) :
    Sound ((Operation.newScope parent).apply w) := by
  have hrest := h.newTable
  have hin : ∀ id ∈ (parent.map Scope.tables).getD [], w.store.HasTable id := by
    cases parent with
    | none => exact nofun
    | some p => exact h.tables p (hparent p rfl)
  have hsorted : ((parent.map Scope.tables).getD []).Pairwise (· > ·) := by
    cases parent with
    | none => exact .nil
    | some p => exact h.younger p (hparent p rfl)
  refine ⟨hrest.keyed, List.forall_mem_append.mpr ⟨hrest.tables, ?_⟩,
    List.forall_mem_append.mpr ⟨hrest.younger, ?_⟩, List.forall_mem_append.mpr ⟨?_, ?_⟩⟩
  · rintro s hs id hid
    cases List.mem_singleton.mp hs
    rcases List.mem_cons.mp hid with rfl | hid
    · exact w.store.hasTable_newTable
    · exact w.store.keeps_newTable.hasTable (hin id hid)
  · rintro s hs
    cases List.mem_singleton.mp hs
    exact List.pairwise_cons.mpr ⟨hin, hsorted⟩
  · intro s hs
    exact (h.outer s hs).imp_right fun ⟨p, hp, heq⟩ => ⟨p, List.mem_append_left _ hp, heq⟩
  · rintro s hs
    cases List.mem_singleton.mp hs
    cases parent with
    | none => exact .inl rfl
    | some p => exact .inr ⟨p, List.mem_append_left _ (hparent p rfl), rfl⟩

/-- **Whatever is done keeps tables maps and chains well-founded, and takes nothing away.** -/
theorem Sound.apply (h : v.Sound) {op : Operation} (hop : op.Possible v) :
    (op.apply v).Sound ∧ v.Widens (op.apply v) := by
  cases op with
  | newTable => exact ⟨h.newTable, v.store.widens_newTable, List.prefix_refl _⟩
  | newScope parent =>
    exact ⟨h.newScope hop, v.store.widens_newTable, List.prefix_append _ _⟩
  | declare id d =>
    have hwidens := Store.widens_declare hop d
    exact ⟨h.of_store (Store.Keyed.declare h.keyed hop d) hwidens.size, hwidens,
      List.prefix_refl _⟩
  | setValue x value =>
    have hwidens := v.store.widens_setValue x value
    exact ⟨h.of_store (fun id => (h.keyed id).setValue x value) hwidens.size, hwidens,
      List.prefix_refl _⟩

/-- A run does as every step of it does. -/
theorem Sound.steps (h : v.Sound) (hsteps : Steps v w) : w.Sound ∧ v.Widens w := by
  induction hsteps with
  | refl => exact ⟨h, .refl v⟩
  | tail _ hstep ih =>
    obtain ⟨op, hop⟩ := hstep
    obtain ⟨hsound, hwidens⟩ := ih
    obtain ⟨hsound, hwidens'⟩ := hsound.apply hop
    exact ⟨hsound, hwidens.trans hwidens'⟩

/-- **Tables are maps that only grow, and a scope finds what is nearest.** However a store has been
worked on, each table binds a key once, to what bears it; nothing that follows takes a binding or a
scope away; a declaration adds one binding, or none if its key is bound in that very table; and
setting a value changes what one name finds in one table.  A chain of scopes finds the nearest
binding of a name, or of a name with just this number of parameters; and what it reports where
there is none depends on whether it binds the name at all. -/
theorem bindings_monotone (h : Steps opened w) :
    w.Sound ∧ (∀ u, Steps w u → w.Widens u) ∧
    (∀ id, w.store.HasTable id →
      (∀ name type value targetName,
        let v : Variable := ⟨name, (nonempty? targetName).or name, type, .table id⟩
        w.store.Declared id (∃ s, (w.store.table id).slot? name = some s) (.duplicateName name)
          v [⟨v, value⟩] [] (w.store.declareVariable id name type value targetName)) ∧
      ∀ name parameterTypes returnType implementation? targetName,
        let f : Function := ⟨name, (nonempty? targetName).or name, parameterTypes, returnType, id⟩
        w.store.Declared id (∃ r, (w.store.table id).routine? name parameterTypes.length = some r)
          (.duplicateFunction name parameterTypes.length) f [] [⟨f, implementation?⟩]
          (w.store.declareFunction id name parameterTypes returnType implementation? targetName)) ∧
    (∀ id, ∀ v ∈ w.store.vars id, ∀ x other,
      (∀ name, ((w.store.setValue v x).table other).slot? name
        = if other = id ∧ name = v.name then some ⟨v, x⟩
          else (w.store.table other).slot? name) ∧
      ((w.store.setValue v x).table other).routines = (w.store.table other).routines) ∧
    (∀ scope name,
      (∀ s, w.store.scopeVariable scope name = .ok s ↔
        Store.Nearest (·.slot? name) w.store scope.tables s) ∧
      ∀ f, w.store.scopeVariable scope name = .error f ↔
        f = .undefinedName name ∧ ∀ id ∈ scope.tables, (w.store.table id).slot? name = none) ∧
    ∀ scope name arity,
      (∀ r, w.store.scopeFunction scope name arity = .ok r ↔
        Store.Nearest (·.routine? name arity) w.store scope.tables r) ∧
      ∀ f, w.store.scopeFunction scope name arity = .error f ↔
        (∀ id ∈ scope.tables, (w.store.table id).routine? name arity = none) ∧
          (f = .arity name arity ∧
              (∃ id ∈ scope.tables, ∃ count r, (w.store.table id).routine? name count = some r) ∨
            f = .undefinedFunction name ∧
              ∀ id ∈ scope.tables, ∀ count, (w.store.table id).routine? name count = none) := by
  have hsound := (sound_opened.steps h).1
  refine ⟨hsound, fun u hu => (hsound.steps hu).2, fun id hid => ⟨?_, ?_⟩, ?_, ?_, ?_⟩
  · exact Store.declareVariable_declared hid
  · exact Store.declareFunction_declared hid
  · exact fun id v hv x other => ⟨Store.slot?_setValue_of_mem (hsound.keyed id) hv x other,
      w.store.routines_setValue v x other⟩
  · exact fun scope name =>
      ⟨fun s => w.store.scopeVariable_ok.trans Store.findVariable_nearest,
        fun f => Store.scopeVariable_error⟩
  · exact fun scope name arity =>
      ⟨fun r => w.store.scopeFunction_ok.trans Store.findFunction_nearest,
        fun f => Store.scopeFunction_error⟩

/-- A function `f` with parameters of these types. -/
def overload (id : TableId) (types : List (Option Ty)) : Operation :=
  .declare id (.routine "f" types (some Builtin.integer.type) none none)

/-- Two scopes are made, one inside the other, which bind `f` with different numbers of
parameters. -/
def overloading : Workshop :=
  [Operation.newScope none, overload 9 [], .newScope (some ⟨9, []⟩),
    overload 10 [some Builtin.integer.type]].foldl (fun w op => op.apply w) opened

theorem steps_overloading : Steps opened overloading := by
  have hscope : Steps opened _ := .single (.step (.newScope none) nofun)
  have houter := hscope.tail (.step (overload 9 []) (show Store.HasTable _ 9 by decide))
  have hinner := houter.tail (.step (.newScope (some ⟨9, []⟩)) (by rintro p ⟨⟩; decide))
  exact hinner.tail (.step (overload 10 [some Builtin.integer.type])
    (show Store.HasTable _ 10 by decide))

theorem bindings_monotone_overloading :
    Steps opened overloading ∧ overloading.Sound ∧ overloading.scopes = [⟨9, []⟩, ⟨10, [9]⟩] ∧
    (∃ r, overloading.store.scopeFunction ⟨10, [9]⟩ "f" 0 = .ok r ∧ r.function.home = 9) ∧
    overloading.store.scopeFunction ⟨10, [9]⟩ "f" 2 = .error (.arity "f" 2) := by
  obtain ⟨hsound, -, -, -, -, hfunctions⟩ := bindings_monotone steps_overloading
  obtain ⟨hfound, -⟩ := hfunctions ⟨10, [9]⟩ "f" 0
  have houter : (overloading.store.table 9).routine? "f" 0
      = some ⟨⟨"f", "f", [], some Builtin.integer.type, 9⟩, none⟩ := by cbv
  refine ⟨steps_overloading, hsound, by decide +kernel,
    ⟨⟨⟨"f", "f", [], some Builtin.integer.type, 9⟩, none⟩, (hfound _).mpr ?_, rfl⟩, ?_⟩
  · refine ⟨[10], 9, [], rfl, houter, List.forall_mem_singleton.mpr ?_⟩
    decide +kernel
  · refine ((hfunctions _ _ _).2 _).mpr ⟨?_, .inl ⟨rfl, 9, by decide, 0, _, houter⟩⟩
    refine List.forall_mem_cons.mpr ⟨?_, List.forall_mem_singleton.mpr ?_⟩ <;> decide +kernel

end Workshop

end Parlance
