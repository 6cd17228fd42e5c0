/-
Renamed code is alike.

Code is alike itself with its variables renamed, if each name that is accessed is either one of
those that the renaming calls the method's own or stays as it is.  What renaming is never asked
for stays: two renamings that agree on the names of variables in some code rename it alike, and
one that keeps every name keeps the code.
-/
import Parlance.Proofs.Paired.Code
import Parlance.Proofs.Syntax.Rename
import Parlance.Syntax.Traversal

namespace Parlance

/-! ### The names of variables -/

/-- The name of a variable, in a node that declares or accesses one. -/
def Node.variable? : Node → Option Name
  | .stmt (.declaration name _ _ _) => some name
  | .stmt (.forEach name _ _) => some name
  | .expr (.access name _ _) => some name
  | _ => none

section Congr

variable {f g : Name → Name}

mutual

theorem Expr.rename_congr : (e : Expr) →
    (∀ n ∈ e.walk, ∀ name, n.variable? = some name → f name = g name) → e.rename f = e.rename g
  | .literal _ _, _ => rfl
  | .group e _, h => by
    rw [Expr.rename, Expr.rename, e.rename_congr fun n hn => h n (List.mem_cons_of_mem _ hn)]
  | .binary _ l r _, h => by
    obtain ⟨hl, hr⟩ := List.forall_mem_append.mp (List.forall_mem_cons.mp h).2
    rw [Expr.rename, Expr.rename, l.rename_congr hl, r.rename_congr hr]
  | .access name _ _, h => by
    rw [Expr.rename, Expr.rename, h _ List.mem_cons_self name rfl]
  | .member r _ _ _, h => by
    rw [Expr.rename, Expr.rename, r.rename_congr fun n hn => h n (List.mem_cons_of_mem _ hn)]
  | .call _ as _ _, h => by
    rw [Expr.rename, Expr.rename, renameExprs_congr as fun n hn => h n (List.mem_cons_of_mem _ hn)]
  | .memberCall r _ as _ _, h => by
    obtain ⟨hr, has⟩ := List.forall_mem_append.mp (List.forall_mem_cons.mp h).2
    rw [Expr.rename, Expr.rename, r.rename_congr hr, renameExprs_congr as has]
  | .hole _, _ => rfl

theorem renameExprs_congr : (es : List Expr) →
    (∀ n ∈ walkExprs es, ∀ name, n.variable? = some name → f name = g name) →
    renameExprs f es = renameExprs g es
  | [], _ => rfl
  | e :: es, h => by
    obtain ⟨he, hes⟩ := List.forall_mem_append.mp h
    rw [renameExprs, renameExprs, e.rename_congr he, renameExprs_congr es hes]

end

theorem renameOption_congr {e : Option Expr}
    (h : ∀ n ∈ walkOption e, ∀ name, n.variable? = some name → f name = g name) :
    e.map (Expr.rename f) = e.map (Expr.rename g) := by
  cases e with
  | none => rfl
  | some e => exact congrArg some (e.rename_congr h)

mutual

theorem Stmt.rename_congr : (s : Stmt) →
    (∀ n ∈ s.walk, ∀ name, n.variable? = some name → f name = g name) → s.rename f = s.rename g
  | .expression e, h => by
    rw [Stmt.rename, Stmt.rename, e.rename_congr (List.forall_mem_cons.mp h).2]
  | .declaration name _ e _, h => by
    obtain ⟨hn, he⟩ := List.forall_mem_cons.mp h
    rw [Stmt.rename, Stmt.rename, hn name rfl, renameOption_congr he]
  | .assignment t v, h => by
    obtain ⟨ht, hv⟩ := List.forall_mem_append.mp (List.forall_mem_cons.mp h).2
    rw [Stmt.rename, Stmt.rename, t.rename_congr ht, v.rename_congr hv]
  | .conditional c a b, h => by
    obtain ⟨hc, hab⟩ := List.forall_mem_append.mp (List.forall_mem_cons.mp h).2
    obtain ⟨ha, hb⟩ := List.forall_mem_append.mp hab
    rw [Stmt.rename, Stmt.rename, c.rename_congr hc, renameStmts_congr a ha,
      renameStmts_congr b hb]
  | .forEach name v b, h => by
    obtain ⟨hn, h⟩ := List.forall_mem_cons.mp h
    obtain ⟨hv, hb⟩ := List.forall_mem_append.mp h
    rw [Stmt.rename, Stmt.rename, hn name rfl, v.rename_congr hv, renameStmts_congr b hb]
  | .whileLoop c b, h => by
    obtain ⟨hc, hb⟩ := List.forall_mem_append.mp (List.forall_mem_cons.mp h).2
    rw [Stmt.rename, Stmt.rename, c.rename_congr hc, renameStmts_congr b hb]
  | .returning e, h => by
    rw [Stmt.rename, Stmt.rename, e.rename_congr (List.forall_mem_cons.mp h).2]
  | .hole _, _ => rfl

theorem renameStmts_congr : (ss : List Stmt) →
    (∀ n ∈ walkStmts ss, ∀ name, n.variable? = some name → f name = g name) →
    renameStmts f ss = renameStmts g ss
  | [], _ => rfl
  | s :: ss, h => by
    obtain ⟨hs, hss⟩ := List.forall_mem_append.mp h
    rw [renameStmts, renameStmts, s.rename_congr hs, renameStmts_congr ss hss]

end

end Congr

/-! ### Names that are kept -/

mutual

theorem Expr.rename_id : (e : Expr) → e.rename id = e
  | .literal _ _ | .access _ _ _ | .hole _ => rfl
  | .group e _ => by rw [Expr.rename, e.rename_id]
  | .binary _ l r _ => by rw [Expr.rename, l.rename_id, r.rename_id]
  | .member r _ _ _ => by rw [Expr.rename, r.rename_id]
  | .call _ as _ _ => by rw [Expr.rename, renameExprs_id as]
  | .memberCall r _ as _ _ => by rw [Expr.rename, r.rename_id, renameExprs_id as]

theorem renameExprs_id : (es : List Expr) → renameExprs id es = es
  | [] => rfl
  | e :: es => by rw [renameExprs, e.rename_id, renameExprs_id es]

end

mutual

theorem Stmt.rename_id : (s : Stmt) → s.rename id = s
  | .expression e => by rw [Stmt.rename, e.rename_id]
  | .declaration _ _ none _ => rfl
  | .declaration _ _ (some e) _ => by rw [Stmt.rename, Option.map_some, e.rename_id, id]
  | .assignment t v => by rw [Stmt.rename, t.rename_id, v.rename_id]
  | .conditional c a b => by rw [Stmt.rename, c.rename_id, renameStmts_id a, renameStmts_id b]
  | .forEach _ v b => by rw [Stmt.rename, v.rename_id, renameStmts_id b, id]
  | .whileLoop c b => by rw [Stmt.rename, c.rename_id, renameStmts_id b]
  | .returning e => by rw [Stmt.rename, e.rename_id]
  | .hole _ => rfl

theorem renameStmts_id : (ss : List Stmt) → renameStmts id ss = ss
  | [] => rfl
  | s :: ss => by rw [renameStmts, s.rename_id, renameStmts_id ss]

end

/-! ### Renamed code -/

/-- Whatever is not asked for in a tree is alike itself. -/
structure Likeness.Reflexive (k : Likeness) : Prop where
  typeNames : ∀ e t, k.typeNames e t t
  types : ∀ t, k.types t t
  bound : ∀ v, k.bound v v
  callee : ∀ f, k.callee f f

/-- A node that may stand in code that is renamed: a literal of some sort, or an access to a name
that is the method's own or stays as it is. -/
def Node.Fits (k : Likeness) (ν : Renaming) : Node → Prop
  | .expr (.literal v _) => k.literals v
  | .expr (.access name _ _) => ν.Allows name
  | _ => True

section Alike

variable {k : Likeness} {ν : Renaming}

mutual

theorem Expr.alike_rename (hk : k.Reflexive) : (e : Expr) → (∀ n ∈ e.walk, n.Fits k ν) →
    e.Alike k ν (e.rename ν.name)
  | .literal _ _, h => .literal (h _ List.mem_cons_self) (hk.types _)
  | .group e _, h =>
    .group (e.alike_rename hk fun n hn => h n (List.mem_cons_of_mem _ hn)) (hk.types _)
  | .binary _ l r _, h => by
    obtain ⟨hl, hr⟩ := List.forall_mem_append.mp (List.forall_mem_cons.mp h).2
    exact .binary (l.alike_rename hk hl) (r.alike_rename hk hr) (hk.types _)
  | .access _ _ _, h => .access (h _ List.mem_cons_self) (hk.bound _) (hk.types _)
  | .member r _ _ _, h =>
    .member (r.alike_rename hk fun n hn => h n (List.mem_cons_of_mem _ hn)) (hk.bound _)
      (hk.types _)
  | .call _ as _ _, h =>
    .call (alike_renameExprs hk as fun n hn => h n (List.mem_cons_of_mem _ hn)) (hk.callee _)
      (hk.types _)
  | .memberCall r _ as _ _, h => by
    obtain ⟨hr, has⟩ := List.forall_mem_append.mp (List.forall_mem_cons.mp h).2
    exact .memberCall (r.alike_rename hk hr) (alike_renameExprs hk as has) (hk.callee _)
      (hk.types _)
  | .hole _, _ => .hole

theorem alike_renameExprs (hk : k.Reflexive) : (es : List Expr) →
    (∀ n ∈ walkExprs es, n.Fits k ν) →
    List.Forall₂ (Expr.Alike k ν) es (renameExprs ν.name es)
  | [], _ => .nil
  | e :: es, h => by
    obtain ⟨he, hes⟩ := List.forall_mem_append.mp h
    exact .cons (e.alike_rename hk he) (alike_renameExprs hk es hes)

end

theorem alike_renameOption (hk : k.Reflexive) {e : Option Expr}
    (h : ∀ n ∈ walkOption e, n.Fits k ν) :
    Option.Rel (Expr.Alike k ν) e (e.map (Expr.rename ν.name)) := by
  cases e with
  | none => exact .none
  | some e => exact .some (e.alike_rename hk h)

mutual

theorem Stmt.alike_rename (hk : k.Reflexive) : (s : Stmt) → (∀ n ∈ s.walk, n.Fits k ν) →
    s.Alike k ν (s.rename ν.name)
  | .expression e, h => .expression (e.alike_rename hk (List.forall_mem_cons.mp h).2)
  | .declaration _ _ _ _, h =>
    .declaration (alike_renameOption hk (List.forall_mem_cons.mp h).2) (hk.typeNames _ _)
      (hk.bound _)
  | .assignment t v, h => by
    obtain ⟨ht, hv⟩ := List.forall_mem_append.mp (List.forall_mem_cons.mp h).2
    exact .assignment (t.alike_rename hk ht) (v.alike_rename hk hv)
  | .conditional c a b, h => by
    obtain ⟨hc, hab⟩ := List.forall_mem_append.mp (List.forall_mem_cons.mp h).2
    obtain ⟨ha, hb⟩ := List.forall_mem_append.mp hab
    exact .conditional (c.alike_rename hk hc) (alike_renameStmts hk a ha)
      (alike_renameStmts hk b hb)
  | .forEach _ v b, h => by
    obtain ⟨hv, hb⟩ := List.forall_mem_append.mp (List.forall_mem_cons.mp h).2
    exact .forEach (v.alike_rename hk hv) (alike_renameStmts hk b hb)
  | .whileLoop c b, h => by
    obtain ⟨hc, hb⟩ := List.forall_mem_append.mp (List.forall_mem_cons.mp h).2
    exact .whileLoop (c.alike_rename hk hc) (alike_renameStmts hk b hb)
  | .returning e, h => .returning (e.alike_rename hk (List.forall_mem_cons.mp h).2)
  | .hole _, _ => .hole

theorem alike_renameStmts (hk : k.Reflexive) : (ss : List Stmt) →
    (∀ n ∈ walkStmts ss, n.Fits k ν) →
    List.Forall₂ (Stmt.Alike k ν) ss (renameStmts ν.name ss)
  | [], _ => .nil
  | s :: ss, h => by
    obtain ⟨hs, hss⟩ := List.forall_mem_append.mp h
    exact .cons (s.alike_rename hk hs) (alike_renameStmts hk ss hss)

end

/-- A method is alike itself with its variables renamed, if its own names are parameters. -/
theorem Method.alike_rename (hk : k.Reflexive) (m : Method)
    (hown : ∀ n, ν.own n → n ∈ m.parameters) (h : ∀ n ∈ walkStmts m.body, n.Fits k ν) :
    m.Alike k ν (m.rename ν.name) :=
  ⟨rfl, rfl, hown, rfl, rfl, alike_renameStmts hk m.body h, hk.callee _⟩

end Alike

/-! ### A source and itself -/

section Refl

variable {k : Likeness}

theorem alike_refl_option (hk : k.Reflexive) {e : Option Expr}
    (h : ∀ n ∈ walkOption e, n.Fits k .same) : Option.Rel (Expr.Alike k .same) e e := by
  have renamed := alike_renameOption hk h
  rwa [show Expr.rename Renaming.same.name = id from funext Expr.rename_id, Option.map_id,
    id_eq] at renamed

theorem Method.alike_refl (hk : k.Reflexive) (m : Method)
    (h : ∀ n ∈ walkStmts m.body, n.Fits k .same) : m.Alike k .same m := by
  have renamed := m.alike_rename (ν := .same) hk (fun _ => False.elim) h
  rwa [show m.rename Renaming.same.name = m by
    rw [Method.rename, show Renaming.same.name = id from rfl, List.map_id, renameStmts_id]]
    at renamed

/-- Nothing but literals and accesses that may stand in the source, also where the value of a
field stands in a node of another form. -/
structure Source.Fits (k : Likeness) (s : Source) : Prop where
  nodes : ∀ n ∈ s.walk, n.Fits k .same
  stray : ∀ sketch part, .hole (.stray sketch) ∈ s.fields → sketch.part? "value" = some part →
    ∀ n ∈ walkOption part.toExpr?, n.Fits k .same

/-- If literals may have any values, everything may stand in a source. -/
theorem Source.fits_of_literals (hliterals : ∀ v, k.literals v) (s : Source) : s.Fits k := by
  have fits (n : Node) : n.Fits k .same := by
    unfold Node.Fits
    split
    · exact hliterals _
    · exact .inr rfl
    · trivial
  exact ⟨fun n _ => fits n, fun _ _ _ _ n _ => fits n⟩

theorem FieldPlace.alike_refl (hk : k.Reflexive) {s : Source} (h : s.Fits k) {f : FieldPlace}
    (hf : f ∈ s.fields) : f.Alike k f := by
  have inside {n : Node} (hn : n ∈ f.walk) : n.Fits k .same :=
    h.nodes n (List.mem_cons_of_mem _ (List.mem_append_left _ (List.mem_flatMap.mpr ⟨f, hf, hn⟩)))
  have field {g : Field} (hg : ∀ n ∈ walkOption g.value, n.Fits k .same) : g.Alike k g :=
    ⟨rfl, hk.typeNames _ _, alike_refl_option hk hg, hk.bound _⟩
  cases f with
  | field g => exact .field (field fun n hn => inside (List.mem_cons_of_mem _ hn))
  | declaration g => exact .declaration (field fun n hn => inside (List.mem_cons_of_mem _ hn))
  | hole g =>
    cases g with
    | stray sketch => exact .stray fun part hpart => alike_refl_option hk (h.stray _ _ hf hpart)
    | unlisted => exact .unlisted

theorem MethodPlace.alike_refl (hk : k.Reflexive) (hν : k.renamings .same) {s : Source}
    (h : s.Fits k) {m : MethodPlace} (hm : m ∈ s.methods) : m.Alike k m := by
  have inside {n : Node} (hn : n ∈ m.walk) : n.Fits k .same :=
    h.nodes n (List.mem_cons_of_mem _ (List.mem_append_right _ (List.mem_flatMap.mpr ⟨m, hm, hn⟩)))
  cases m with
  | method m =>
    exact .method hν (m.alike_refl hk fun n hn => inside (List.mem_cons_of_mem _ hn))
  | untyped m =>
    exact .untyped hν (m.alike_refl hk fun n hn => inside (List.mem_cons_of_mem _ hn))
  | hole g => exact .hole

/-- A source is alike itself. -/
theorem Source.alike_refl (hk : k.Reflexive) (hν : k.renamings .same) {s : Source}
    (h : s.Fits k) : s.Alike k s :=
  ⟨List.forall₂_same.mpr fun _ hf => FieldPlace.alike_refl hk h hf,
    List.forall₂_same.mpr fun _ hm => MethodPlace.alike_refl hk hν h hm⟩

end Refl

end Parlance
