/-
What stands in a tree that was read.

A document can spell less than a tree can hold.  In a tree that was read there are no holes and
nothing that has no name where it needs one; a method has as many parameters as types for them;
and the literals are values that can be written again.  None of this lies in an annotation, so
that it holds of whatever a check makes of the tree as well.
-/
import Parlance.Proofs.Document.RoundTrip

namespace Parlance

open Document

/-! ### Nodes that documents spell -/

/-- The names of an expression are given, and a literal can be written. -/
def Expr.Spelled : Expr → Prop
  | .literal v _ => ∃ w, ofValue v = .ok w
  | .group _ _ => True
  | .binary op _ _ _ => op ≠ none
  | .access name _ _ | .member _ name _ _ | .call name _ _ _ | .memberCall _ name _ _ _ =>
    name ≠ none
  | .hole _ => False

/-- The names of a statement are given. -/
def Stmt.Spelled : Stmt → Prop
  | .declaration name _ _ _ | .forEach name _ _ => name ≠ none
  | .hole _ => False
  | _ => True

/-- A field whose name is given. -/
def FieldPlace.Spelled : FieldPlace → Prop
  | .field f => f.name ≠ none
  | _ => False

/-- The names of a method and of its parameters and their types are given, and it has as many
parameters as types. -/
structure Method.Spelled (m : Method) : Prop where
  name : m.name ≠ none
  parameters : ∀ p ∈ m.parameters, p ≠ none
  types : ∀ t ∈ m.parameterTypeNames, t ≠ none
  paired : m.parameters.length = m.parameterTypeNames.length

/-- A method as documents spell it. -/
def MethodPlace.Spelled : MethodPlace → Prop
  | .method m => m.Spelled
  | _ => False

/-- A node as documents spell it. -/
def Node.Spelled : Node → Prop
  | .source _ => True
  | .field p => p.Spelled
  | .method p => p.Spelled
  | .stmt s => s.Spelled
  | .expr e => e.Spelled
  | .stray _ | .gap => False

/-- Nothing of this lies in an annotation. -/
@[simp] theorem Node.spelled_bare (n : Node) : n.bare.Spelled ↔ n.Spelled := by
  cases n with
  | field p => cases p <;> exact Iff.rfl
  | method p =>
    cases p with
    | method m => exact ⟨fun h => ⟨h.1, h.2, h.3, h.4⟩, fun h => ⟨h.1, h.2, h.3, h.4⟩⟩
    | _ => exact Iff.rfl
  | stmt s => cases s <;> exact Iff.rfl
  | expr e => cases e <;> exact Iff.rfl
  | _ => exact Iff.rfl

/-- That every node of a walk is as documents spell it. -/
def AllSpelled (ns : List Node) : Prop :=
  ∀ n ∈ ns, n.Spelled

section Walks

variable {n : Node} {ns ms : List Node}

@[simp] theorem allSpelled_nil : AllSpelled [] :=
  fun _ h => absurd h List.not_mem_nil

@[simp] theorem allSpelled_cons : AllSpelled (n :: ns) ↔ n.Spelled ∧ AllSpelled ns :=
  List.forall_mem_cons

@[simp] theorem allSpelled_append : AllSpelled (ns ++ ms) ↔ AllSpelled ns ∧ AllSpelled ms :=
  List.forall_mem_append

@[simp] theorem allSpelled_bare : AllSpelled (ns.map Node.bare) ↔ AllSpelled ns := by
  simp [AllSpelled]

theorem AllSpelled.of_mem {β : Type} {walk : β → List Node} {ps : List β} {p : β}
    (h : AllSpelled (ps.flatMap walk)) (hp : p ∈ ps) : AllSpelled (walk p) :=
  fun n hn => h n (List.mem_flatMap.mpr ⟨p, hp, hn⟩)

end Walks

/-- There is nothing as documents spell it in a hole. -/
theorem Hole.not_spelled (h : Hole) : ¬ AllSpelled h.walk := by
  intro hs
  cases h with
  | unlisted => exact hs _ List.mem_cons_self
  | stray s => cases s <;> exact hs _ List.mem_cons_self

/-! ### What is spelled -/

/-- The values of literals that are read can be written. -/
theorem ofValue_of_spellsValue {d : Json} {v : Value} (h : SpellsValue d v) :
    ∃ w, ofValue v = .ok w :=
  let ⟨w, hw⟩ := written_value h
  ⟨w, hw.written⟩

mutual

theorem spelled_expr : (e : Expr) → {d : Json} → SpellsExpr d e → AllSpelled e.walk
  | .literal v t, d, h => by
    cases h with
    | literal _ _ spells =>
      simp [Expr.walk, Node.Spelled, Expr.Spelled, ofValue_of_spellsValue spells]
  | .group e t, d, h => by
    cases h with
    | group _ _ spells => simp [Expr.walk, Node.Spelled, Expr.Spelled, spelled_expr e spells]
  | .binary op l r t, d, h => by
    cases h with
    | binary _ _ _ spellsLeft _ spellsRight =>
      simp [Expr.walk, Node.Spelled, Expr.Spelled, spelled_expr l spellsLeft,
        spelled_expr r spellsRight]
  | .access name v t, d, h => by
    cases h with
    | access _ _ _ => simp [Expr.walk, Node.Spelled, Expr.Spelled]
  | .member receiver name v t, d, h => by
    cases h with
    | member _ _ spells _ =>
      simp [Expr.walk, Node.Spelled, Expr.Spelled, spelled_expr receiver spells]
  | .call name arguments f t, d, h => by
    cases h with
    | call _ _ _ spells =>
      obtain ⟨ds, hds⟩ := spells.exists_forall₂
      simp [Expr.walk, Node.Spelled, Expr.Spelled, spelled_exprs arguments hds]
  | .memberCall receiver name arguments f t, d, h => by
    cases h with
    | memberCall _ _ spells _ spellsAll =>
      obtain ⟨ds, hds⟩ := spellsAll.exists_forall₂
      simp [Expr.walk, Node.Spelled, Expr.Spelled, spelled_expr receiver spells,
        spelled_exprs arguments hds]
  | .hole k, d, h => absurd h not_spellsExpr_hole

theorem spelled_exprs : (es : List Expr) → {ds : List Json} →
    List.Forall₂ SpellsExpr ds es → AllSpelled (walkExprs es)
  | [], _, _ => allSpelled_nil
  | e :: es, _, h => by
    cases h with
    | cons he hes =>
      rw [walkExprs, allSpelled_append]
      exact ⟨spelled_expr e he, spelled_exprs es hes⟩

end

theorem spelled_option {e : Option Expr} {place : Option Json}
    (h : Optionally SpellsExpr place e) : AllSpelled (walkOption e) := by
  cases h with
  | vacant _ => exact allSpelled_nil
  | given h => exact spelled_expr _ h

mutual

theorem spelled_stmt : (s : Stmt) → {d : Json} → SpellsStmt d s → AllSpelled s.walk
  | .expression e, d, h => by
    cases h with
    | expression _ _ spells => simp [Stmt.walk, Node.Spelled, Stmt.Spelled, spelled_expr e spells]
  | .declaration name typeName value v, d, h => by
    cases h with
    | declaration _ _ _ valued =>
      simp [Stmt.walk, Node.Spelled, Stmt.Spelled, spelled_option valued]
  | .assignment target value, d, h => by
    cases h with
    | assignment _ _ spellsTarget _ spellsValue =>
      simp [Stmt.walk, Node.Spelled, Stmt.Spelled, spelled_expr target spellsTarget,
        spelled_expr value spellsValue]
  | .conditional condition thenBody elseBody, d, h => by
    cases h with
    | conditional _ _ spells thens elses =>
      obtain ⟨dts, hdts⟩ := thens.exists_forall₂
      obtain ⟨des, hdes⟩ := elses.exists_forall₂
      simp [Stmt.walk, Node.Spelled, Stmt.Spelled, spelled_expr condition spells,
        spelled_stmts thenBody hdts, spelled_stmts elseBody hdes]
  | .forEach name value body, d, h => by
    cases h with
    | forEach _ _ _ spells statements =>
      obtain ⟨ds, hds⟩ := statements.exists_forall₂
      simp [Stmt.walk, Node.Spelled, Stmt.Spelled, spelled_expr value spells,
        spelled_stmts body hds]
  | .whileLoop condition body, d, h => by
    cases h with
    | whileLoop _ _ spells statements =>
      obtain ⟨ds, hds⟩ := statements.exists_forall₂
      simp [Stmt.walk, Node.Spelled, Stmt.Spelled, spelled_expr condition spells,
        spelled_stmts body hds]
  | .returning value, d, h => by
    cases h with
    | returning _ _ spells =>
      simp [Stmt.walk, Node.Spelled, Stmt.Spelled, spelled_expr value spells]
  | .hole k, d, h => absurd h not_spellsStmt_hole

theorem spelled_stmts : (ss : List Stmt) → {ds : List Json} →
    List.Forall₂ SpellsStmt ds ss → AllSpelled (walkStmts ss)
  | [], _, _ => allSpelled_nil
  | s :: ss, _, h => by
    cases h with
    | cons hs hss =>
      rw [walkStmts, allSpelled_append]
      exact ⟨spelled_stmt s hs, spelled_stmts ss hss⟩

end

theorem spelled_field {d : Json} {p : FieldPlace} (h : SpellsField d p) : AllSpelled p.walk := by
  cases h with
  | field _ _ _ valued =>
    simp [FieldPlace.walk, Node.Spelled, FieldPlace.Spelled, spelled_option valued]

theorem spelled_method {d : Json} {p : MethodPlace} (h : SpellsMethod d p) :
    AllSpelled p.walk := by
  cases h with
  | method _ _ _ _ paired _ statements =>
    obtain ⟨ds, hds⟩ := statements.exists_forall₂
    rw [MethodPlace.walk, allSpelled_cons]
    exact ⟨⟨by simp, by simp, by simp, by simpa using paired⟩, spelled_stmts _ hds⟩

theorem spelled_places {β : Type} {R : Json → β → Prop} (walk : β → List Node)
    (place : ∀ d p, R d p → AllSpelled (walk p)) {ps : List β} {ds : List Json}
    (h : List.Forall₂ R ds ps) : AllSpelled (ps.flatMap walk) := by
  induction h with
  | nil => exact allSpelled_nil
  | cons hp _ ih =>
    rw [List.flatMap_cons, allSpelled_append]
    exact ⟨place _ _ hp, ih⟩

theorem spelled_source {d : Json} {s : Source} (h : SpellsSource d s) : AllSpelled s.walk := by
  cases h with
  | source _ fielded methodical =>
    obtain ⟨dfs, hdfs⟩ := fielded.exists_forall₂
    obtain ⟨dms, hdms⟩ := methodical.exists_forall₂
    rw [Source.walk, allSpelled_cons, allSpelled_append]
    exact ⟨trivial, spelled_places FieldPlace.walk (fun _ _ => spelled_field) hdfs,
      spelled_places MethodPlace.walk (fun _ _ => spelled_method) hdms⟩

namespace Source.Annotated

variable {d : Json} {s t : Source}

/-- Whatever a source that was read has become, without its annotations it is what the document
spells. -/
theorem spells (read : toSource d = .ok s) (annotated : s.Annotated t) : SpellsSource d t.bare := by
  have spells := (toSource_ok d s).mp read
  rw [annotated.bare_eq, bare_of_spellsSource spells]
  exact spells

/-- Each of its nodes is as documents spell it. -/
theorem spelled (read : toSource d = .ok s) (annotated : s.Annotated t) : AllSpelled t.walk := by
  rw [← allSpelled_bare, ← t.walk_bare]
  exact spelled_source (annotated.spells read)

/-- It can be written. -/
theorem written (read : toSource d = .ok s) (annotated : s.Annotated t) :
    ∃ w, ofSource t = .ok w := by
  obtain ⟨w, hw⟩ := written_source (annotated.spells read)
  exact ⟨w, hw.written⟩

end Source.Annotated

end Parlance
