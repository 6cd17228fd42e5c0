/-
The world that a checked program runs in.

Checking and running build their scopes apart.  A `Setting` brings them together: the table
that the check has built up by some point, and the pass that evaluates.  A place of the
check is covered by the setting when all that it knows is in that table, and a store models
the setting when the evaluator's own table has the same variables, with values of their
types, and the same functions, each of them `print` or a method whose body passed the check
in a place that is covered.

While fields are evaluated the setting grows from field to field; while methods run it is
the same throughout, and that the store keeps modelling it is the invariant of the run.
-/
import Parlance.Proofs.Checking.Alone
import Parlance.Proofs.Kinds.Frames
import Parlance.Proofs.Kinds.Operator
import Parlance.Proofs.Running.Returning
import Parlance.Syntax.Traversal

namespace Parlance

/-! ### Careful trees -/

/-- Whether a method may end without a value, as far as its result type goes. -/
def Method.mayEndSilently (m : Method) : Bool :=
  m.returnTypeName == none || m.returnTypeName == some Builtin.nil.name
    || m.returnTypeName == some Builtin.any.name

/-- Whether a name is that of an operator that orders two values. -/
def ordersOperands (op : Name) : Bool :=
  match Operator.ofName? op with
  | some (.ordered _) => true
  | _ => false

/-- Whether a node keeps clear of what the check lets pass: a variable without a value, a method
that may end without the value it promises, and an order between operands that are only known
to be `Comparable`. -/
def Node.careful : Node → Bool
  | .field (.field f) | .field (.declaration f) => f.value.isSome
  | .method (.method m) => m.mayEndSilently || definitelyReturn m.body
  | .stmt (.declaration _ _ value _) => value.isSome
  | .expr (.binary op l r _) =>
    !(ordersOperands op && Ty.isKnown l.type? .comparable && Ty.isKnown r.type? .comparable)
  | _ => true

/-- All of the nodes are careful, unless the places are lax. -/
def Careful (lax : Bool) (nodes : List Node) : Prop :=
  lax = true ∨ ∀ n ∈ nodes, n.careful = true

namespace Careful

variable {lax : Bool} {nodes : List Node}

theorem mono (h : Careful lax nodes) {part : List Node} (hp : part ⊆ nodes) : Careful lax part :=
  h.imp_right fun h n hn => h n (hp hn)

theorem left {more : List Node} (h : Careful lax (nodes ++ more)) : Careful lax nodes :=
  h.mono (List.subset_append_left _ _)

theorem right {more : List Node} (h : Careful lax (nodes ++ more)) : Careful lax more :=
  h.mono (List.subset_append_right _ _)

theorem tail {n : Node} (h : Careful lax (n :: nodes)) : Careful lax nodes :=
  h.mono (List.subset_cons_self _ _)

theorem head {n : Node} (h : Careful lax (n :: nodes)) : lax = true ∨ n.careful = true :=
  h.imp_right fun h => h n List.mem_cons_self

end Careful

/-! ### Settings -/

/-- What the check has built up, the pass that evaluates, the stream it writes to, and how strict
the places are. -/
structure Setting where
  /-- What is written to, by its encoding. -/
  stream : Encoding
  lax : Bool
  /-- The table that the checking pass has built up. -/
  table : Table
  distinct : table.Distinct
  /-- The pass that evaluates, which has no scope around its own. -/
  pass : Pass
  alone : pass.scope.outer = []

namespace Setting

variable (w : Setting)

/-- All that the place knows outside of its blocks is in the setting's table. -/
structure Covers (c : Context) : Prop where
  alone : c.Alone
  extends_table : (c.store.table c.pass.scope.top).Extends w.table

/-- The second variable is what the first one is at run time. -/
structure KeepsSlot (s r : Slot) : Prop where
  name : r.var.name = s.var.name
  home : r.var.home = .table w.pass.scope.top
  value : Holds w.lax s.var.type r.value

/-- The body of a method passed the check in a covered place, for that function. -/
inductive Typed : Method → Function → Prop
  | intro {m : Method} {f : Function} {c : Context} {block : List Variable} {types : List Ty}
      {result : Ty} (hbound : m.bound = some f) (hc : w.Covers c)
      (hl : m.parameters.length = types.length)
      (hp : f.parameterTypes = types.map some) (hr : f.returnType = some result)
      (hb : parameterBlock (m.parameters.zip types) [] = .ok block) (hblocks : c.blocks = [block])
      (hret : c.returns? = some result) (hs : Stmt.AllTyped c m.body)
      (hcare : Careful w.lax (walkStmts m.body))
      (hend : Holds w.lax (some result) .nil ∨ definitelyReturn m.body = true) : Typed m f

/-- The second function is what the first one is at run time. -/
inductive Implements (s : Routine) : Routine → Prop
  | print {f : Function} (hn : f.name = s.function.name) (ha : f.arity = s.function.arity)
      (hp : s.function.parameterTypes = [some Builtin.any.type])
      (hr : s.function.returnType = some Builtin.nil.type) : Implements s ⟨f, some .print⟩
  | method {f : Function} {m : Method} (hn : f.name = s.function.name)
      (ha : f.arity = s.function.arity) (hm : w.Typed m s.function) :
      Implements s ⟨f, some (.method m w.pass)⟩

/-- The evaluator's own table is what the setting's table is at run time. -/
structure Models (σ : Store) : Prop where
  top : σ.HasTable w.pass.scope.top
  slots : List.Forall₂ w.KeepsSlot w.table.slots (σ.table w.pass.scope.top).slots
  routines : List.Forall₂ w.Implements w.table.routines (σ.table w.pass.scope.top).routines
  encoding : σ.encoding = w.stream

variable {w}

theorem Covers.enter {c : Context} (h : w.Covers c) {block : List Variable}
    (hb : ∀ v ∈ block, Ty.Plain v.type) : w.Covers (c.enter block) :=
  ⟨h.alone.enter hb, h.extends_table⟩

theorem Covers.extend {c : Context} (h : w.Covers c) {declared : Option Variable}
    (hd : ∀ v ∈ declared, Ty.Plain v.type) : w.Covers (c.extend declared) := by
  refine ⟨h.alone.extend hd, ?_⟩
  cases declared with
  | none => exact h.extends_table
  | some v => exact h.extends_table

/-! A setting that has grown covers and implements what it did before. -/

/-- The setting with a larger table. -/
def grow (w : Setting) (table : Table) (distinct : table.Distinct) : Setting :=
  { w with table, distinct }

section Grow

variable {table : Table} {hd : table.Distinct} (h : w.table.Extends table)

include h

theorem Covers.grow {c : Context} (hc : w.Covers c) : (w.grow table hd).Covers c :=
  ⟨hc.alone, hc.extends_table.trans h⟩

theorem Typed.grow {m : Method} {f : Function} (hm : w.Typed m f) :
    (w.grow table hd).Typed m f := by
  cases hm with
  | intro hbound hc hl hp hr hb hblocks hret hs hcare hend =>
    exact .intro hbound (hc.grow h) hl hp hr hb hblocks hret hs hcare hend

theorem Implements.grow {s r : Routine} (hi : w.Implements s r) :
    (w.grow table hd).Implements s r := by
  cases hi with
  | print hn ha hp hr => exact .print hn ha hp hr
  | method hn ha hm => exact .method hn ha (hm.grow h)

end Grow

theorem Implements.name {s r : Routine} (h : w.Implements s r) :
    r.function.name = s.function.name := by
  cases h with
  | print hn _ _ _ => exact hn
  | method hn _ _ => exact hn

theorem Implements.arity {s r : Routine} (h : w.Implements s r) :
    r.function.arity = s.function.arity := by
  cases h with
  | print _ ha _ _ => exact ha
  | method _ ha _ => exact ha

namespace Models

variable {σ : Store} (h : w.Models σ)

include h

theorem rel_slot? (name : Name) :
    (w.table.slot? name).Rel w.KeepsSlot ((σ.table w.pass.scope.top).slot? name) :=
  forall₂_find? (fun {a b} (hab : w.KeepsSlot a b) => by rw [hab.name]) h.slots

theorem rel_routine? (name : Name) (arity : Nat) :
    (w.table.routine? name arity).Rel w.Implements
      ((σ.table w.pass.scope.top).routine? name arity) :=
  forall₂_find? (fun {a b} (hab : w.Implements a b) => by rw [hab.name, hab.arity]) h.routines

/-- A variable of the setting's table is found at run time. -/
theorem slot? {name : Name} {s : Slot} (hs : w.table.slot? name = some s) :
    ∃ r, (σ.table w.pass.scope.top).slot? name = some r ∧ w.KeepsSlot s r :=
  exists_of_rel (h.rel_slot? name) hs

/-- So is a function. -/
theorem routine? {name : Name} {arity : Nat} {s : Routine}
    (hs : w.table.routine? name arity = some s) :
    ∃ r, (σ.table w.pass.scope.top).routine? name arity = some r ∧ w.Implements s r :=
  exists_of_rel (h.rel_routine? name arity) hs

theorem slot?_none {name : Name} (hs : w.table.slot? name = none) :
    (σ.table w.pass.scope.top).slot? name = none :=
  none_of_rel (h.rel_slot? name) hs

theorem routine?_none {name : Name} {arity : Nat} (hs : w.table.routine? name arity = none) :
    (σ.table w.pass.scope.top).routine? name arity = none :=
  none_of_rel (h.rel_routine? name arity) hs

/-- Assigning a value of its type to a variable of the setting's table. -/
theorem setValue {v : Variable} {s : Slot} {x : Value} (hs : w.table.slot? v.name = some s)
    (hx : Holds w.lax s.var.type x) : w.Models (σ.setValue v x) := by
  refine ⟨(Store.hasTable_setValue σ).mpr h.top, ?_, ?_, (σ.encoding_setValue v x).trans h.encoding⟩
  · rcases σ.table_setValue v x w.pass.scope.top with ht | ⟨-, ht⟩
    · rw [ht]
      exact h.slots
    · rw [ht]
      refine List.forall₂_map_right_iff.mpr (List.forall₂_iff_zip.mpr ⟨h.slots.length_eq, ?_⟩)
      intro s' r' hmem
      have hk := List.forall₂_zip h.slots hmem
      by_cases hn : r'.var.name = v.name
      · -- each variable of the setting's table is the one its name finds, so `s'` is `s`
        have hs' := w.distinct.slots s' (List.of_mem_zip hmem).1
        rw [← hk.name, hn, hs] at hs'
        cases hs'
        rw [if_pos (by simpa using hn)]
        exact ⟨hk.name, hk.home, hx⟩
      · rw [if_neg (by simpa using hn)]
        exact hk
  · rw [Store.routines_setValue]
    exact h.routines

theorem write (t : Text) : w.Models (σ.write t) :=
  ⟨h.top, h.slots, h.routines, h.encoding⟩

theorem report (record : LogRecord) : w.Models (σ.report record) :=
  ⟨h.top, h.slots, h.routines, h.encoding⟩

end Models

end Setting

end Parlance
