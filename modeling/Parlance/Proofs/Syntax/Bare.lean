/-
Trees without their annotations.

What a check finds out stands in a tree beside what the program says.  The bare tree is the
program alone: the same nodes, names and literals, and no annotation.  A walk through it meets the
nodes of the tree, each of them bare.
-/
import Parlance.Syntax.Traversal

namespace Parlance

mutual

/-- An expression without its annotations. -/
def Expr.bare : Expr → Expr
  | .literal v _ => .literal v none
  | .group e _ => .group e.bare none
  | .binary op l r _ => .binary op l.bare r.bare none
  | .access name _ _ => .access name none none
  | .member receiver name _ _ => .member receiver.bare name none none
  | .call name arguments _ _ => .call name (bareExprs arguments) none none
  | .memberCall receiver name arguments _ _ =>
    .memberCall receiver.bare name (bareExprs arguments) none none
  | .hole h => .hole h

/-- Expressions without their annotations. -/
def bareExprs : List Expr → List Expr
  | [] => []
  | e :: es => e.bare :: bareExprs es

end

mutual

/-- A statement without its annotations. -/
def Stmt.bare : Stmt → Stmt
  | .expression e => .expression e.bare
  | .declaration name typeName value _ => .declaration name typeName (value.map Expr.bare) none
  | .assignment target value => .assignment target.bare value.bare
  | .conditional condition thenBody elseBody =>
    .conditional condition.bare (bareStmts thenBody) (bareStmts elseBody)
  | .forEach name value body => .forEach name value.bare (bareStmts body)
  | .whileLoop condition body => .whileLoop condition.bare (bareStmts body)
  | .returning value => .returning value.bare
  | .hole h => .hole h

/-- Statements without their annotations. -/
def bareStmts : List Stmt → List Stmt
  | [] => []
  | s :: ss => s.bare :: bareStmts ss

end

theorem length_bareExprs (es : List Expr) : (bareExprs es).length = es.length := by
  induction es with
  | nil => rfl
  | cons e es ih => rw [bareExprs, List.length_cons, List.length_cons, ih]

theorem length_eq_of_bareExprs {es es' : List Expr} (h : bareExprs es = bareExprs es') :
    es.length = es'.length := by
  rw [← length_bareExprs, h, length_bareExprs]

/-- A field without its annotations. -/
def Field.bare (f : Field) : Field :=
  { f with value := f.value.map Expr.bare, bound := none }

/-- A method without its annotations. -/
def Method.bare (m : Method) : Method :=
  { m with body := bareStmts m.body, bound := none }

/-- What stands in a place for a field, without its annotations. -/
def FieldPlace.bare : FieldPlace → FieldPlace
  | .field f => .field f.bare
  | .declaration f => .declaration f.bare
  | .hole h => .hole h

/-- What stands in a place for a method, without its annotations. -/
def MethodPlace.bare : MethodPlace → MethodPlace
  | .method m => .method m.bare
  | .untyped m => .untyped m.bare
  | .hole h => .hole h

/-- A source without its annotations. -/
def Source.bare (s : Source) : Source :=
  ⟨s.fields.map FieldPlace.bare, s.methods.map MethodPlace.bare⟩

/-! ### Walks -/

/-- A node without its annotations and those below it. -/
def Node.bare : Node → Node
  | .source s => .source s.bare
  | .field f => .field f.bare
  | .method m => .method m.bare
  | .stmt s => .stmt s.bare
  | .expr e => .expr e.bare
  | .stray s => .stray s
  | .gap => .gap

/-- Whether a walk meets it in a hole, where it is no node of the tree. -/
def Node.Outside : Node → Prop
  | .stray _ | .gap => True
  | _ => False

mutual

theorem Sketch.outside_walk : (s : Sketch) → ∀ n ∈ s.walk, n.Outside
  | .node f parts => by
    rw [Sketch.walk, List.forall_mem_cons]
    exact ⟨trivial, outside_walkParts _ parts⟩
  | .absent | .value _ | .text _ | .list _ => List.forall_mem_singleton.mpr trivial

theorem outside_walkParts : (roles : List Role) → (parts : List Sketch) →
    ∀ n ∈ walkParts roles parts, n.Outside
  | [], _ => by simp [walkParts]
  | _ :: _, [] => by simp [walkParts]
  | role :: roles, part :: parts => by
    have hparts := outside_walkParts roles parts
    have hpart := part.outside_walk
    cases role with
    | node => exact List.forall_mem_append.mpr ⟨hpart, hparts⟩
    | optional =>
      cases part with
      | absent => exact hparts
      | _ => exact List.forall_mem_append.mpr ⟨hpart, hparts⟩
    | nodes =>
      cases part with
      | list items => exact List.forall_mem_append.mpr ⟨outside_walkSketches items, hparts⟩
      | _ => exact List.forall_mem_cons.mpr ⟨trivial, hparts⟩
    | _ => exact hparts

theorem outside_walkSketches : (ss : List Sketch) → ∀ n ∈ walkSketches ss, n.Outside
  | [] => nofun
  | s :: ss => List.forall_mem_append.mpr ⟨s.outside_walk, outside_walkSketches ss⟩

end

theorem Hole.outside_walk (h : Hole) : ∀ n ∈ h.walk, n.Outside := by
  cases h with
  | stray s => exact s.outside_walk
  | unlisted => exact List.forall_mem_singleton.mpr trivial

/-- What leaves alone what is met in holes leaves the walk through a hole as it is. -/
theorem Hole.map_walk {f : Node → Node} (hf : ∀ n : Node, n.Outside → f n = n) (h : Hole) :
    h.walk.map f = h.walk :=
  (List.map_congr_left fun n hn => hf n (h.outside_walk n hn)).trans (List.map_id _)

theorem Hole.walk_bare (h : Hole) : h.walk.map Node.bare = h.walk :=
  h.map_walk fun n hn => by
    cases n with
    | stray s | gap => rfl
    | _ => exact hn.elim

mutual

theorem Expr.walk_bare : (e : Expr) → e.bare.walk = e.walk.map Node.bare
  | .literal _ _ | .access _ _ _ => rfl
  | .group e _ | .member e _ _ _ => by
    simp only [Expr.bare, Expr.walk, List.map_cons, e.walk_bare, Node.bare]
  | .binary _ l r _ => by
    simp only [Expr.bare, Expr.walk, List.map_cons, List.map_append, l.walk_bare, r.walk_bare,
      Node.bare]
  | .call _ as _ _ => by
    simp only [Expr.bare, Expr.walk, List.map_cons, walkExprs_bare as, Node.bare]
  | .memberCall r _ as _ _ => by
    simp only [Expr.bare, Expr.walk, List.map_cons, List.map_append, r.walk_bare, walkExprs_bare as,
      Node.bare]
  | .hole h => h.walk_bare.symm

theorem walkExprs_bare : (es : List Expr) →
    walkExprs (bareExprs es) = (walkExprs es).map Node.bare
  | [] => rfl
  | e :: es => by
    simp only [bareExprs, walkExprs, List.map_append, e.walk_bare, walkExprs_bare es]

end

theorem walkOption_bare (e : Option Expr) :
    walkOption (e.map Expr.bare) = (walkOption e).map Node.bare := by
  cases e with
  | none => rfl
  | some e => exact e.walk_bare

mutual

theorem Stmt.walk_bare : (s : Stmt) → s.bare.walk = s.walk.map Node.bare
  | .expression e | .returning e => by
    simp only [Stmt.bare, Stmt.walk, List.map_cons, e.walk_bare, Node.bare]
  | .declaration _ _ v _ => by
    simp only [Stmt.bare, Stmt.walk, List.map_cons, walkOption_bare, Node.bare]
  | .assignment t v => by
    simp only [Stmt.bare, Stmt.walk, List.map_cons, List.map_append, t.walk_bare, v.walk_bare,
      Node.bare]
  | .conditional c a b => by
    simp only [Stmt.bare, Stmt.walk, List.map_cons, List.map_append, c.walk_bare, walkStmts_bare a,
      walkStmts_bare b, Node.bare]
  | .forEach _ e b | .whileLoop e b => by
    simp only [Stmt.bare, Stmt.walk, List.map_cons, List.map_append, e.walk_bare, walkStmts_bare b,
      Node.bare]
  | .hole h => h.walk_bare.symm

theorem walkStmts_bare : (ss : List Stmt) →
    walkStmts (bareStmts ss) = (walkStmts ss).map Node.bare
  | [] => rfl
  | s :: ss => by
    simp only [bareStmts, walkStmts, List.map_append, s.walk_bare, walkStmts_bare ss]

end

theorem FieldPlace.walk_bare (p : FieldPlace) : p.bare.walk = p.walk.map Node.bare := by
  cases p with
  | field f | declaration f =>
    simp only [bare, walk, List.map_cons, Field.bare, walkOption_bare, Node.bare]
  | hole h => exact h.walk_bare.symm

theorem MethodPlace.walk_bare (p : MethodPlace) : p.bare.walk = p.walk.map Node.bare := by
  cases p with
  | method m | untyped m =>
    simp only [bare, walk, List.map_cons, Method.bare, walkStmts_bare, Node.bare]
  | hole h => exact h.walk_bare.symm

/-- A walk through the bare source meets the bare nodes of the source. -/
theorem Source.walk_bare (s : Source) : s.bare.walk = s.walk.map Node.bare := by
  simp only [walk, bare, List.map_cons, List.map_append, List.flatMap_map, List.map_flatMap,
    FieldPlace.walk_bare, MethodPlace.walk_bare, Node.bare]

end Parlance
