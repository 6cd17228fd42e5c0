/-
Expressions without a call.

Such an expression only reads.  With enough fuel it comes to a value or a fault, with less it runs
out, and whatever becomes of it the store is the one that it found.  So what an assignment of such
an expression to such a target does is done at its very end, once nothing can go wrong any more: it
replaces the value in one place.  The place is found before the value is known, but nothing that
happens in between could move it.

That the place is one only is a property of the stores that there can be, where no table binds a
name twice.  Frames need no such property, since an assignment replaces the value it finds first.
-/
import Parlance.Proofs.Running.Reachable
import Parlance.Proofs.Variables.Cells

namespace Parlance

namespace Expr

/-- Whether no call is evaluated with the expression. What has no form is not evaluated at all. -/
def callFree : Expr → Bool
  | literal .. | access .. | hole _ => true
  | group e _ => e.callFree
  | binary _ l r _ => l.callFree && r.callFree
  | member receiver .. => receiver.callFree
  | call .. | memberCall .. => false

end Expr

/-! ### Ends that do not depend on the fuel -/

namespace Eval

open EStateM (Result)

variable {α β : Type} {x : Nat → Eval α} {f : Nat → α → Eval β} {σ τ : Store}

/-- With enough fuel the evaluation comes to this result; with less it runs out of fuel and leaves
the store as it was. -/
def ComesTo (x : Nat → Eval α) (σ : Store) (r : Result Stop Store α) : Prop :=
  ∃ n, ∀ fuel, (n ≤ fuel → x fuel σ = r) ∧ (fuel < n → x fuel σ = .error .outOfFuel σ)

theorem comesTo_of_eq {y : Eval α} {r : Result Stop Store α} (h : y σ = r) :
    ComesTo (fun _ => y) σ r :=
  ⟨0, fun fuel => ⟨fun _ => h, fun hlt => absurd hlt fuel.not_lt_zero⟩⟩

/-- One unit of fuel is spent at the first step. -/
theorem ComesTo.step {r : Result Stop Store α} (h : ComesTo (fun fuel => x (fuel + 1)) σ r)
    (hzero : x 0 σ = .error .outOfFuel σ) : ComesTo x σ r := by
  obtain ⟨n, h⟩ := h
  refine ⟨n + 1, fun fuel => ?_⟩
  cases fuel with
  | zero => exact ⟨fun hle => absurd hle (Nat.not_succ_le_zero n), fun _ => hzero⟩
  | succ fuel =>
    exact ⟨fun hle => (h fuel).1 (Nat.le_of_succ_le_succ hle),
      fun hlt => (h fuel).2 (Nat.lt_of_succ_lt_succ hlt)⟩

/-- An answer that leaves the store as it was is handed on. -/
theorem ComesTo.bind {a : α} {r : Result Stop Store β} (hx : ComesTo x σ (.ok a σ))
    (hf : ComesTo (fun fuel => f fuel a) σ r) : ComesTo (fun fuel => x fuel >>= f fuel) σ r := by
  obtain ⟨n, hx⟩ := hx
  obtain ⟨m, hf⟩ := hf
  refine ⟨max n m, fun fuel => ⟨fun hle => ?_, fun hlt => ?_⟩⟩
  · exact (bind_apply ((hx fuel).1 (Nat.le_trans (Nat.le_max_left n m) hle))).trans
      ((hf fuel).1 (Nat.le_trans (Nat.le_max_right n m) hle))
  · by_cases hn : n ≤ fuel
    · exact (bind_apply ((hx fuel).1 hn)).trans ((hf fuel).2 (by omega))
    · exact bind_error ((hx fuel).2 (Nat.lt_of_not_le hn))

/-- A fault is the end. -/
theorem ComesTo.bind_fault {cause : Fault} (hx : ComesTo x σ (.error (.fault cause) τ)) :
    ComesTo (fun fuel => x fuel >>= f fuel) σ (.error (.fault cause) τ) := by
  obtain ⟨n, hx⟩ := hx
  exact ⟨n, fun fuel => ⟨fun hle => bind_error ((hx fuel).1 hle),
    fun hlt => bind_error ((hx fuel).2 hlt)⟩⟩

/-- The evaluation comes to a value or a fault, and leaves the store as it was. -/
def Settles (x : Nat → Eval α) (σ : Store) (r : Except Fault α) : Prop :=
  ComesTo x σ (lift r σ)

/-- It settles on something. -/
def Settled (x : Nat → Eval α) (σ : Store) : Prop :=
  ∃ r, Settles x σ r

theorem settled_pure (a : α) : Settled (fun _ => pure a) σ :=
  ⟨.ok a, comesTo_of_eq rfl⟩

theorem settled_lift (r : Except Fault α) : Settled (fun _ => lift r) σ :=
  ⟨r, comesTo_of_eq rfl⟩

theorem settled_fault (cause : Fault) : Settled (fun _ => (throw (.fault cause) : Eval α)) σ :=
  ⟨.error cause, comesTo_of_eq rfl⟩

theorem settled_read (r : Store → Except BindingFault α) : Settled (fun _ => read r) σ :=
  ⟨(r σ).mapError .binding, comesTo_of_eq rfl⟩

theorem Settled.step (h : Settled (fun fuel => x (fuel + 1)) σ)
    (hzero : x 0 σ = .error .outOfFuel σ) : Settled x σ := by
  obtain ⟨r, h⟩ := h
  exact ⟨r, h.step hzero⟩

theorem Settled.bind (hx : Settled x σ) (hf : ∀ a, Settled (fun fuel => f fuel a) σ) :
    Settled (fun fuel => x fuel >>= f fuel) σ := by
  obtain ⟨r, hx⟩ := hx
  cases r with
  | ok a =>
    obtain ⟨r, hf⟩ := hf a
    exact ⟨r, ComesTo.bind hx hf⟩
  | error cause => exact ⟨.error cause, ComesTo.bind_fault hx⟩

theorem settles_read_ok {r : Store → Except BindingFault α} {a : α}
    (h : Settles (fun _ => read r) σ (.ok a)) : r σ = .ok a := by
  obtain ⟨n, h⟩ := h
  exact (read_eq ((h n).1 (Nat.le_refl n))).2

/-- The evaluation comes to a result of this kind. -/
def EndsIn (P : Result Stop Store α → Prop) (x : Nat → Eval α) (σ : Store) : Prop :=
  ∃ r, P r ∧ ComesTo x σ r

variable {P : Result Stop Store β → Prop}

theorem EndsIn.step {y : Nat → Eval β} (h : EndsIn P (fun fuel => y (fuel + 1)) σ)
    (hzero : y 0 σ = .error .outOfFuel σ) : EndsIn P y σ := by
  obtain ⟨r, hr, h⟩ := h
  exact ⟨r, hr, h.step hzero⟩

/-- What begins with something that settles ends in its fault, or goes on from its value. -/
theorem EndsIn.bind (hfault : ∀ cause, P (.error (.fault cause) σ)) (hx : Settled x σ)
    (hf : ∀ a, Settles x σ (.ok a) → EndsIn P (fun fuel => f fuel a) σ) :
    EndsIn P (fun fuel => x fuel >>= f fuel) σ := by
  obtain ⟨r, hx⟩ := hx
  cases r with
  | ok a =>
    obtain ⟨r, hr, hf⟩ := hf a hx
    exact ⟨r, hr, ComesTo.bind hx hf⟩
  | error cause => exact ⟨_, hfault cause, ComesTo.bind_fault hx⟩

end Eval

open Eval

/-! ### Expressions -/

variable {pass : Pass} {locals : Locals} {σ : Store}

/-- **An expression without a call settles**, in every scope and every store. -/
theorem Expr.settled : (e : Expr) → e.callFree = true →
    Settled (fun fuel => eval pass locals fuel e) σ
  | .literal v _, _ => .step (settled_pure v) rfl
  | .group e _, h => .step (Expr.settled e h) rfl
  | .binary op l r _, h => by
    obtain ⟨hl, hr⟩ := Bool.and_eq_true_iff.mp h
    refine .step ((Expr.settled l hl).bind fun left => (settled_lift _).bind fun b => ?_) rfl
    cases b with
    | some b => exact settled_pure _
    | none => exact (Expr.settled r hr).bind fun right => settled_lift _
  | .access name _ _, _ => by
    refine .step ?_ rfl
    simp only [eval]
    split
    · exact settled_pure _
    · exact (settled_read _).bind fun s => settled_pure _
  | .member receiver name _ _, h =>
    .step ((Expr.settled receiver h).bind fun owner => (settled_read _).bind fun members =>
      (settled_read _).bind fun s => settled_pure _) rfl
  | .hole h, _ => .step (settled_fault _) rfl

/-! ### One variable and no other -/

/-- In the second store the variable in one position of one table has this value. All else is as it
is in the first. -/
structure Store.SetsOnly (σ τ : Store) (id : TableId) (i : Nat) (x : Value) : Prop where
  value : ((τ.table id).slots[i]?) = ((σ.table id).slots[i]?).map fun s => ⟨s.var, x⟩
  others : ∀ other j, ¬(other = id ∧ j = i) →
    (τ.table other).slots[j]? = (σ.table other).slots[j]?
  routines : ∀ other, (τ.table other).routines = (σ.table other).routines
  size : τ.tables.size = σ.tables.size
  registries : τ.registries = σ.registries
  objects : τ.objects = σ.objects
  output : τ.output = σ.output
  encoding : τ.encoding = σ.encoding
  log : τ.log = σ.log

/-- In the second frames the variable in one cell has this value. All else is as it is in the
first. -/
structure Locals.SetsOnly (locals locals' : Locals) (c : Nat × Nat) (x : Value) : Prop where
  value : item? locals' c = (item? locals c).map fun b => (b.1, x)
  others : ∀ d, d ≠ c → item? locals' d = item? locals d
  names : locals'.names = locals.names

/-- Assigning in frames replaces the value in the cell that the name finds. -/
theorem Locals.setsOnly {name : Name} {c : Nat × Nat} (hc : locals.cell? name = some c)
    (x : Value) : locals.SetsOnly (locals.set name x) c x := by
  have hset : locals.set name x
      = locals.modify c.1 fun frame => frame.modify c.2 fun b => (b.1, x) := by
    rw [set_eq, hc]
  refine ⟨?_, fun d hd => ?_, locals.names_set name x⟩
  · rw [hset, item?_modify_self]
  · rw [hset, item?_modify_of_ne _ hd]

/-- A name is that of one position of a table at most. -/
theorem Store.Sited.position (h : σ.Sited) {id : TableId} {i j : Nat} {s r : Slot}
    (hs : (σ.table id).slots[i]? = some s) (hr : (σ.table id).slots[j]? = some r)
    (hname : s.var.name = r.var.name) : i = j := by
  have hnodup : ((σ.vars id).map Variable.name).Nodup := List.pairwise_map.mpr (h.distinct id)
  have hat {k : Nat} {s : Slot} (hs : (σ.table id).slots[k]? = some s) :
      ((σ.vars id).map Variable.name)[k]? = some s.var.name := by
    rw [vars, List.getElem?_map, List.getElem?_map, hs]
    rfl
  refine (List.getElem?_inj ?_ hnodup).mp ?_
  · exact (List.getElem?_eq_some_iff.mp (hat hs)).1
  · rw [hat hs, hat hr, hname]

/-- Setting the value of a variable replaces it in the position where the variable is. -/
theorem Store.Sited.setsOnly (h : σ.Sited) {id : TableId} {i : Nat} {s : Slot}
    (hs : (σ.table id).slots[i]? = some s) (x : Value) :
    σ.SetsOnly (σ.setValue s.var x) id i x := by
  have hmem := List.mem_of_getElem? hs
  have hset : σ.setValue s.var x = σ.modifyTable id fun t => t.setValue s.var.name x := by
    rw [setValue, h.home id s.var (List.mem_map_of_mem hmem)]
  have hid : σ.HasTable id := by
    by_contra hnone
    rw [table_of_not_hasTable hnone] at hmem
    exact List.not_mem_nil hmem
  rw [hset]
  refine ⟨?_, fun other j hne => ?_, fun other => ?_, ?_, rfl, rfl, rfl, rfl, rfl⟩
  · rw [table_modifyTable_self hid, Table.setValue, List.getElem?_map, hs]
    simp
  · by_cases hother : other = id
    · subst hother
      rw [table_modifyTable_self hid, Table.setValue, List.getElem?_map]
      cases hr : (σ.table other).slots[j]? with
      | none => rfl
      | some r =>
        have hname : r.var.name ≠ s.var.name := fun he => hne ⟨rfl, h.position hr hs he⟩
        simp [hname]
    · rw [table_modifyTable_of_ne σ hother]
  · rcases σ.table_modifyTable id other fun t => t.setValue s.var.name x with he | ⟨rfl, -, he⟩
    · rw [he]
    · rw [he]
      rfl
  · simp [modifyTable]

/-! ### Assignments -/

/-- A name finds the position of a table: the first table of the scope that binds it is this one. -/
structure Store.FindsAt (σ : Store) (scope : Scope) (name : Name) (id : TableId) (i : Nat) :
    Prop where
  nearest : ∃ nearer further, scope.tables = nearer ++ id :: further ∧
    ∀ other ∈ nearer, ∀ v ∈ σ.vars other, v.name ≠ name
  named : ((σ.vars id)[i]?).map Variable.name = some name

/-- The assignment of a value to a target is this change, of the frames or of the store. -/
inductive Stmt.Assigns (pass : Pass) (locals : Locals) (σ : Store) (x : Value) :
    Expr → Locals → Store → Prop
  | cell {name : Name} {v : Option Variable} {t : Option Ty} {c : Nat × Nat} {locals' : Locals}
      (hc : locals.cell? name = some c) (h : locals.SetsOnly locals' c x) :
      Assigns pass locals σ x (.access name v t) locals' σ
  | variable {name : Name} {v : Option Variable} {t : Option Ty} {id : TableId} {i : Nat}
      {τ : Store} (hc : locals.cell? name = none) (hfound : σ.FindsAt pass.scope name id i)
      (h : σ.SetsOnly τ id i x) : Assigns pass locals σ x (.access name v t) locals τ
  | member {receiver : Expr} {name : Name} {v : Option Variable} {t : Option Ty} {owner : Value}
      {id : TableId} {i : Nat} {τ : Store}
      (howner : Settles (fun fuel => eval pass locals fuel receiver) σ (.ok owner))
      (hmembers : σ.membersOfValue pass.registry owner = .ok id)
      (hnamed : ((σ.vars id)[i]?).map Variable.name = some name) (h : σ.SetsOnly τ id i x) :
      Assigns pass locals σ x (.member receiver name v t) locals τ

/-- How an assignment ends: in a fault, with nothing changed, or with the change that the value of
its right side makes. -/
inductive Stmt.AssignmentEnds (pass : Pass) (locals : Locals) (σ : Store) (target value : Expr) :
    EStateM.Result Stop Store Outcome → Prop
  | raised {cause : Fault} : AssignmentEnds pass locals σ target value (.error (.fault cause) σ)
  | assigned {x : Value} {locals' : Locals} {τ : Store}
      (hx : Settles (fun fuel => eval pass locals fuel value) σ (.ok x))
      (h : Assigns pass locals σ x target locals' τ) :
      AssignmentEnds pass locals σ target value (.ok (.completed locals') τ)

/-- A name that has a value in frames has a cell there. -/
theorem Locals.exists_cell_of_get? {name : Name} {v : Value} (h : locals.get? name = some v) :
    ∃ c, locals.cell? name = some c := by
  rw [get?_eq] at h
  obtain ⟨c, hc, -⟩ := Option.bind_eq_some_iff.mp h
  exact ⟨c, hc⟩

/-- One that has none has no cell. -/
theorem Locals.cell?_of_get? {name : Name} (h : locals.get? name = none) :
    locals.cell? name = none := by
  cases hc : locals.cell? name with
  | none => rfl
  | some c =>
    have hname : item? locals.names c = some name := item?_nearest? hc
    rw [names, item?_map] at hname
    obtain ⟨b, hb, -⟩ := Option.map_eq_some_iff.mp hname
    rw [get?_eq, hc, Option.bind_some, hb] at h
    cases h

/-- What a table has for a name is in one of its positions. -/
theorem Store.exists_position {id : TableId} {name : Name} {s : Slot}
    (h : (σ.table id).slot? name = some s) :
    ∃ i : Nat, (σ.table id).slots[i]? = some s ∧
      ((σ.vars id)[i]?).map Variable.name = some name := by
  obtain ⟨hmem, hname⟩ := Table.mem_of_slot? h
  obtain ⟨i, hi⟩ := List.mem_iff_getElem?.mp hmem
  exact ⟨i, hi, by rw [vars, List.getElem?_map, hi, ← hname]; rfl⟩

theorem Store.exists_findsAt {scope : Scope} {name : Name} {s : Slot}
    (h : σ.scopeVariable scope name = .ok s) :
    ∃ id i, (σ.table id).slots[i]? = some s ∧ σ.FindsAt scope name id i := by
  obtain ⟨nearer, id, further, htables, hs, hnone⟩ :=
    findVariable_nearest.mp ((σ.scopeVariable_ok).mp h)
  obtain ⟨i, hi, hnamed⟩ := exists_position hs
  refine ⟨id, i, hi, ⟨nearer, further, htables, fun other hother v hv hname => ?_⟩, hnamed⟩
  obtain ⟨s', hs', rfl⟩ := List.mem_map.mp hv
  have hne := List.find?_eq_none.mp (hnone other hother) s' hs'
  simp [hname] at hne

/-- **An assignment without a call does all or nothing**, and all is one value. -/
theorem Stmt.assignment_endsIn (h : σ.Sited) {target value : Expr} (ht : target.callFree = true)
    (hv : value.callFree = true) :
    EndsIn (AssignmentEnds pass locals σ target value)
      (fun fuel => exec pass fuel locals (.assignment target value)) σ := by
  have raised := @AssignmentEnds.raised pass locals σ target value
  have settled {e : Expr} (he : e.callFree = true) :=
    @Expr.settled pass locals σ e he
  refine .step ?_ rfl
  cases target with
  | access name v t =>
    simp only [exec]
    cases hget : locals.get? name with
    | some w =>
      obtain ⟨c, hc⟩ := Locals.exists_cell_of_get? hget
      refine .bind @raised (settled hv) fun x hx => ?_
      exact ⟨_, .assigned hx (.cell hc (Locals.setsOnly hc x)), comesTo_of_eq rfl⟩
    | none =>
      refine .bind @raised (settled_read _) fun s hs => ?_
      obtain ⟨id, i, hi, hfound⟩ := Store.exists_findsAt (settles_read_ok hs)
      refine .bind @raised (settled hv) fun x hx => ?_
      exact ⟨_, .assigned hx (.variable (Locals.cell?_of_get? hget) hfound (h.setsOnly hi x)),
        comesTo_of_eq rfl⟩
  | member receiver name v t =>
    refine .bind @raised (settled ht) fun owner howner => ?_
    refine .bind @raised (settled_read _) fun id hid => ?_
    refine .bind @raised (settled_read _) fun s hs => ?_
    obtain ⟨i, hi, hnamed⟩ :=
      Store.exists_position ((σ.memberVariable_ok).mp (settles_read_ok hs))
    refine .bind @raised (settled hv) fun x hx => ?_
    exact ⟨_, .assigned hx (.member howner (settles_read_ok hid) hnamed (h.setsOnly hi x)),
      comesTo_of_eq rfl⟩
  | _ => exact ⟨_, .raised, comesTo_of_eq rfl⟩

/-- **Without a call nothing is changed but the variable that is assigned.** In every scope, an
expression without a call comes to a value or a fault and leaves the store as it was.  In every
store that there can be, an assignment of such an expression to such a target ends in a fault and
has changed nothing, or it has given the value of the expression to one variable and changed nothing
else: the variable of the nearest cell in the frames, the nearest one in the scope if there is none,
or the one among the members of the owner. -/
theorem callFree_changes_one (pass : Pass) (locals : Locals) (σ : Store) :
    (∀ e : Expr, e.callFree = true → Settled (fun fuel => eval pass locals fuel e) σ) ∧
    ∀ target value : Expr, σ.Reachable → target.callFree = true → value.callFree = true →
      EndsIn (Stmt.AssignmentEnds pass locals σ target value)
        (fun fuel => exec pass fuel locals (.assignment target value)) σ :=
  ⟨Expr.settled, fun _ _ h ht hv => Stmt.assignment_endsIn h.sited ht hv⟩

/-- Two scopes, one inside the other, which both bind `x`. -/
def Store.shadowing : Store :=
  (Store.initial.newTable.2.newTable.2.declare 9 (.slot "x" none (.integer 1) none)).declare 10
    (.slot "x" none (.integer 2) none)

/-- The assignment of `x + 1` to `x`, in the inner scope. -/
def Store.incremented (fuel : Nat) : Eval Outcome :=
  exec ⟨⟨10, [9]⟩, 0⟩ fuel [] (.assignment (.access "x" none none)
    (.binary "+" (.access "x" none none) (.literal (.integer 1) none) none))

theorem callFree_changes_one_shadowing :
    Store.shadowing.Reachable ∧
    EndsIn (Stmt.AssignmentEnds ⟨⟨10, [9]⟩, 0⟩ [] Store.shadowing (.access "x" none none)
        (.binary "+" (.access "x" none none) (.literal (.integer 1) none) none))
      Store.incremented Store.shadowing ∧
    [10, 9].map (fun id => ((stored (Store.incremented 3 Store.shadowing)).table id).slots.map
      Slot.value) = [[.integer 3], [.integer 1]] := by
  have h : Store.shadowing.Reachable :=
    .declare (.declare (.newTable (.newTable (.opened .memory))) 9 _) 10 _
  exact ⟨h, (callFree_changes_one _ [] _).2 _ _ h rfl rfl, by decide +kernel⟩

end Parlance
