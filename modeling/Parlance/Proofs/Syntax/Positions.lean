/-
Positions in a tree.

A position is told by the way down to it from the root, at each node the number of the child
that is entered.  Ordered as words are, a position comes before those below it, and what is
below one child before what is below a later one.

A walk yields a node and then walks the node's children.  So it yields what stands at each
position, once, and in this order, whatever the tree is made of.  The children of a node are
listed here by its form alone, and nowhere is a walk asked for them.
-/
import Mathlib.Data.List.Flatten
import Mathlib.Data.List.Lex
import Parlance.Syntax.Traversal

namespace Parlance

/-! ### Children -/

/-- What a hole is as a node. -/
def Hole.node : Hole → Node
  | .stray s => .stray s
  | .unlisted => .gap

/-- An expression as a node, or the hole in its place. -/
def Expr.node : Expr → Node
  | .hole h => h.node
  | e => .expr e

/-- A statement as a node, or the hole in its place. -/
def Stmt.node : Stmt → Node
  | .hole h => h.node
  | s => .stmt s

/-- What stands in a place for a field, as a node. -/
def FieldPlace.node : FieldPlace → Node
  | .hole h => h.node
  | p => .field p

/-- What stands in a place for a method, as a node. -/
def MethodPlace.node : MethodPlace → Node
  | .hole h => h.node
  | p => .method p

/-- The parts of a sketch that are nodes, the parts being of these roles. -/
def partNodes : List Role → List Sketch → List Node
  | .node :: roles, part :: parts => .stray part :: partNodes roles parts
  | .optional :: roles, .absent :: parts => partNodes roles parts
  | .optional :: roles, part :: parts => .stray part :: partNodes roles parts
  | .nodes :: roles, .list items :: parts => items.map .stray ++ partNodes roles parts
  | .nodes :: roles, _ :: parts => .gap :: partNodes roles parts
  | _ :: roles, _ :: parts => partNodes roles parts
  | _, _ => []

/-- The children of an expression, a receiver before the arguments. -/
def Expr.children : Expr → List Node
  | .group e _ => [e.node]
  | .binary _ l r _ => [l.node, r.node]
  | .member receiver _ _ _ => [receiver.node]
  | .call _ arguments _ _ => arguments.map Expr.node
  | .memberCall receiver _ arguments _ _ => receiver.node :: arguments.map Expr.node
  | .literal _ _ | .access _ _ _ | .hole _ => []

/-- The children of a statement, in the order they stand in the source. -/
def Stmt.children : Stmt → List Node
  | .expression e => [e.node]
  | .declaration _ _ value _ => (value.map Expr.node).toList
  | .assignment target value => [target.node, value.node]
  | .conditional condition thenBody elseBody =>
    condition.node :: (thenBody.map Stmt.node ++ elseBody.map Stmt.node)
  | .forEach _ value body => value.node :: body.map Stmt.node
  | .whileLoop condition body => condition.node :: body.map Stmt.node
  | .returning value => [value.node]
  | .hole _ => []

/-- The children of a field: its value, if it has one. -/
def FieldPlace.children : FieldPlace → List Node
  | .field f | .declaration f => (f.value.map Expr.node).toList
  | .hole _ => []

/-- The children of a method: the statements of its body. -/
def MethodPlace.children : MethodPlace → List Node
  | .method m | .untyped m => m.body.map Stmt.node
  | .hole _ => []

/-- The children of a node, in the order they stand in the source. -/
def Node.children : Node → List Node
  | .source s => s.fields.map FieldPlace.node ++ s.methods.map MethodPlace.node
  | .field p => p.children
  | .method p => p.children
  | .stmt s => s.children
  | .expr e => e.children
  | .stray (.node f parts) => partNodes (f.parts.map Prod.snd) parts
  | .stray _ | .gap => []

/-- Holes stand among nodes as what is in them. -/
def Node.Plain : Node → Prop
  | .field (.hole _) | .method (.hole _) | .stmt (.hole _) | .expr (.hole _) => False
  | _ => True

/-! ### A walk from any node -/

/-- A node and everything below it. -/
def Node.walk : Node → List Node
  | .source s => s.walk
  | .field p => p.walk
  | .method p => p.walk
  | .stmt s => s.walk
  | .expr e => e.walk
  | .stray s => s.walk
  | .gap => [.gap]

@[simp] theorem Hole.walk_node (h : Hole) : h.node.walk = h.walk := by
  cases h <;> rfl

@[simp] theorem Expr.walk_node (e : Expr) : e.node.walk = e.walk := by
  cases e with
  | hole h => exact h.walk_node
  | _ => rfl

@[simp] theorem Stmt.walk_node (s : Stmt) : s.node.walk = s.walk := by
  cases s with
  | hole h => exact h.walk_node
  | _ => rfl

@[simp] theorem FieldPlace.walk_node (p : FieldPlace) : p.node.walk = p.walk := by
  cases p with
  | hole h => exact h.walk_node
  | _ => rfl

@[simp] theorem MethodPlace.walk_node (p : MethodPlace) : p.node.walk = p.walk := by
  cases p with
  | hole h => exact h.walk_node
  | _ => rfl

@[simp] theorem walkExprs_eq (es : List Expr) :
    (es.map Expr.node).flatMap Node.walk = walkExprs es := by
  induction es with
  | nil => rfl
  | cons e es ih => rw [List.map_cons, List.flatMap_cons, ih, e.walk_node, walkExprs]

@[simp] theorem walkOption_eq (e : Option Expr) :
    (e.map Expr.node).toList.flatMap Node.walk = walkOption e := by
  cases e <;> simp [walkOption]

@[simp] theorem walkStmts_eq (ss : List Stmt) :
    (ss.map Stmt.node).flatMap Node.walk = walkStmts ss := by
  induction ss with
  | nil => rfl
  | cons s ss ih => rw [List.map_cons, List.flatMap_cons, ih, s.walk_node, walkStmts]

@[simp] theorem walkSketches_eq (items : List Sketch) :
    (items.map Node.stray).flatMap Node.walk = walkSketches items := by
  induction items with
  | nil => rfl
  | cons s items ih =>
    rw [List.map_cons, List.flatMap_cons, ih, walkSketches]
    rfl

theorem walkParts_eq (roles : List Role) (parts : List Sketch) :
    (partNodes roles parts).flatMap Node.walk = walkParts roles parts := by
  fun_induction partNodes roles parts <;> simp_all [walkParts, Node.walk]

/-- A walk yields the node and then walks the node's children. -/
theorem Node.walk_eq {n : Node} (plain : n.Plain) :
    n.walk = n :: n.children.flatMap Node.walk := by
  cases n with
  | source s =>
    show s.walk = _
    simp [children, List.flatMap_map, Source.walk]
  | field p =>
    show p.walk = _
    cases p with
    | hole h => exact plain.elim
    | _ => simp [children, FieldPlace.walk, FieldPlace.children]
  | method p =>
    show p.walk = _
    cases p with
    | hole h => exact plain.elim
    | _ => simp [children, MethodPlace.walk, MethodPlace.children]
  | stmt s =>
    show s.walk = _
    cases s with
    | hole h => exact plain.elim
    | _ => simp [children, Stmt.walk, Stmt.children]
  | expr e =>
    show e.walk = _
    cases e with
    | hole h => exact plain.elim
    | _ => simp [children, Expr.walk, Expr.children]
  | stray s =>
    show s.walk = _
    cases s <;> simp [children, Sketch.walk, walkParts_eq]
  | gap => rfl

/-! No child of a node is a hole. -/

theorem Hole.plain_node (h : Hole) : h.node.Plain := by
  cases h <;> trivial

theorem Expr.plain_node (e : Expr) : e.node.Plain := by
  cases e with
  | hole h => exact h.plain_node
  | _ => trivial

theorem Stmt.plain_node (s : Stmt) : s.node.Plain := by
  cases s with
  | hole h => exact h.plain_node
  | _ => trivial

theorem FieldPlace.plain_node (p : FieldPlace) : p.node.Plain := by
  cases p with
  | hole h => exact h.plain_node
  | _ => trivial

theorem MethodPlace.plain_node (p : MethodPlace) : p.node.Plain := by
  cases p with
  | hole h => exact h.plain_node
  | _ => trivial

theorem plain_partNodes (roles : List Role) (parts : List Sketch) :
    ∀ n ∈ partNodes roles parts, n.Plain := by
  have stray (s : Sketch) : (Node.stray s).Plain := trivial
  have gap : Node.gap.Plain := trivial
  fun_induction partNodes roles parts <;> simp_all [or_imp]

theorem Node.plain_children (n : Node) : ∀ m ∈ n.children, m.Plain := by
  cases n with
  | source s => simp [children, or_imp, forall_and, FieldPlace.plain_node, MethodPlace.plain_node]
  | field p => cases p <;> simp [children, FieldPlace.children, Expr.plain_node]
  | method p => cases p <;> simp [children, MethodPlace.children, Stmt.plain_node]
  | stmt s =>
    cases s <;>
      simp [children, Stmt.children, or_imp, forall_and, Expr.plain_node, Stmt.plain_node]
  | expr e => cases e <;> simp [children, Expr.children, or_imp, forall_and, Expr.plain_node]
  | stray s =>
    cases s with
    | node f parts => exact plain_partNodes _ _
    | _ => simp [children]
  | gap => simp [children]

/-! ### Positions -/

/-- The node at a position, told by the numbers of the children that are entered on the way. -/
def Node.at? (n : Node) : List Nat → Option Node
  | [] => some n
  | i :: p =>
    match n.children[i]? with
    | none => none
    | some child => child.at? p

/-- The node at a position below one of several nodes. -/
def below? (ns : List Node) : List Nat → Option Node
  | [] => none
  | i :: p =>
    match ns[i]? with
    | none => none
    | some n => n.at? p

/-- That nodes are those at all positions there are, in the order of their positions. -/
structure Enumerates (at? : List Nat → Option Node) (ns : List Node)
    (positions : List (List Nat)) : Prop where
  ordered : positions.Pairwise (· < ·)
  complete : ∀ p, p ∈ positions ↔ at? p ≠ none
  nodes : ns.map some = positions.map at?

theorem enumerates_nil : Enumerates (below? []) [] [] := by
  refine ⟨.nil, fun p => ?_, rfl⟩
  cases p <;> simp [below?]

/-- The root comes before what is below it. -/
theorem Enumerates.root {n : Node} {ns : List Node} {ps : List (List Nat)}
    (h : Enumerates (below? n.children) ns ps) : Enumerates n.at? (n :: ns) ([] :: ps) := by
  have top : ∀ p ∈ ps, p ≠ [] ∧ n.at? p = below? n.children p := by
    intro p hp
    cases p with
    | nil => exact absurd rfl ((h.complete []).mp hp)
    | cons i p => exact ⟨List.cons_ne_nil _ _, rfl⟩
  refine ⟨List.pairwise_cons.mpr ⟨fun p hp => ?_, h.ordered⟩, fun p => ?_, ?_⟩
  · cases p with
    | nil => exact absurd rfl (top _ hp).1
    | cons i p => exact List.nil_lt_cons i p
  · cases p with
    | nil => simp [Node.at?]
    | cons i p =>
      rw [List.mem_cons, h.complete]
      simp [Node.at?, below?]
  · rw [List.map_cons, List.map_cons, h.nodes]
    exact congrArg (_ :: ·) (List.map_congr_left fun p hp => (top p hp).2.symm)

/-- A position below one of several nodes, when one more stands in front of them. -/
def later : List Nat → List Nat
  | [] => []
  | i :: p => (i + 1) :: p

theorem later_lt {p q : List Nat} (h : p < q) : later p < later q := by
  cases p with
  | nil =>
    cases q with
    | nil => exact absurd h (lt_irrefl _)
    | cons j q => exact List.nil_lt_cons _ _
  | cons i p =>
    cases q with
    | nil => exact absurd h (List.not_lt_nil _)
    | cons j q =>
      rcases List.cons_lt_cons_iff.mp h with hij | ⟨rfl, hpq⟩
      · exact List.cons_lt_cons_iff.mpr (.inl (Nat.succ_lt_succ hij))
      · exact List.cons_lt_cons_iff.mpr (.inr ⟨rfl, hpq⟩)

theorem mem_map_later {p : List Nat} {qs : List (List Nat)} (h : [] ∉ qs) :
    p ∈ qs.map later ↔ ∃ i q, p = (i + 1) :: q ∧ i :: q ∈ qs := by
  constructor
  · intro hp
    obtain ⟨q, hq, rfl⟩ := List.mem_map.mp hp
    cases q with
    | nil => exact absurd hq h
    | cons i q => exact ⟨i, q, rfl, hq⟩
  · rintro ⟨i, q, rfl, hq⟩
    exact List.mem_map.mpr ⟨_, hq, rfl⟩

/-- What is below the first of several nodes comes before what is below the others. -/
theorem Enumerates.cons {n : Node} {ns ms ls : List Node} {ps qs : List (List Nat)}
    (h : Enumerates n.at? ms ps) (hs : Enumerates (below? ns) ls qs) :
    Enumerates (below? (n :: ns)) (ms ++ ls) (ps.map (0 :: ·) ++ qs.map later) := by
  have rooted : [] ∉ qs := fun hq => (hs.complete []).mp hq rfl
  refine ⟨List.pairwise_append.mpr ⟨?_, ?_, ?_⟩, fun p => ?_, ?_⟩
  · refine List.pairwise_map.mpr (h.ordered.imp fun hpq => ?_)
    exact List.cons_lt_cons_iff.mpr (.inr ⟨rfl, hpq⟩)
  · exact List.pairwise_map.mpr (hs.ordered.imp later_lt)
  · intro p hp q hq
    obtain ⟨p, -, rfl⟩ := List.mem_map.mp hp
    obtain ⟨j, q, rfl, -⟩ := (mem_map_later rooted).mp hq
    exact List.cons_lt_cons_iff.mpr (.inl (Nat.succ_pos j))
  · rw [List.mem_append, mem_map_later rooted, List.mem_map]
    match p with
    | [] => simp [below?]
    | 0 :: p => simp [below?, h.complete]
    | (i + 1) :: p => simp [below?, hs.complete]
  · rw [List.map_append, List.map_append, h.nodes, hs.nodes, List.map_map, List.map_map]
    congr 1
    refine List.map_congr_left fun q hq => ?_
    cases q with
    | nil => rfl
    | cons j q => simp [later, below?]

/-- What a walk enumerates below each of several nodes, it enumerates below all of them. -/
theorem exists_enumerates {ns : List Node} {walk : Node → List Node}
    (h : ∀ n ∈ ns, ∃ ps, Enumerates n.at? (walk n) ps) :
    ∃ ps, Enumerates (below? ns) (ns.flatMap walk) ps := by
  induction ns with
  | nil => exact ⟨[], enumerates_nil⟩
  | cons n ns ih =>
    obtain ⟨ps, hps⟩ := h n List.mem_cons_self
    obtain ⟨qs, hqs⟩ := ih fun m hm => h m (List.mem_cons_of_mem _ hm)
    exact ⟨_, hps.cons hqs⟩

/-- A walk from a node enumerates what is below it. -/
theorem Node.walk_enumerates (n : Node) (plain : n.Plain) :
    ∃ ps, Enumerates n.at? n.walk ps := by
  -- The walk of a child is a part of the walk of its parent, and shorter.
  induction hlen : n.walk.length using Nat.strong_induction_on generalizing n with
  | h k ih =>
    rw [n.walk_eq plain]
    have below : ∀ m ∈ n.children, ∃ ps, Enumerates m.at? m.walk ps := by
      intro m hm
      refine ih m.walk.length ?_ m (n.plain_children m hm) rfl
      have part := ((List.singleton_sublist.mpr hm).flatMap Node.walk).length_le
      rw [List.flatMap_singleton] at part
      rw [← hlen, n.walk_eq plain]
      exact Nat.lt_succ_of_le part
    obtain ⟨ps, hps⟩ := exists_enumerates below
    exact ⟨_, hps.root⟩

/-- A walk through a source yields what stands at every position in it, once, each node before
those below it and what is below one child before what is below a later one. -/
theorem Source.walk_enumerates (s : Source) :
    ∃ positions, Enumerates (Node.source s).at? s.walk positions :=
  (Node.source s).walk_enumerates trivial

end Parlance
