/-
A tree and its document have the same nodes.

Walking a tree and writing it are two enumerations of what is in it, by two functions that know
nothing of each other.  The document is walked in its own way, depth first and in the order of
its keys, and whatever stands under `_type` is a tag.  Annotations are objects with tags too, so
the keys under which they stand are left out.

The tags of what is written for a tree that was read are the names of the nodes that the walk
yields, in the same order.  A node that one of the two leaves out, or visits earlier or later
than the other, would tell them apart.
-/
import Parlance.Proofs.Document.Spelled
import Parlance.Proofs.Syntax.Positions

namespace Parlance

open Document (ofForm ofValue ofExpr ofExprs ofExpr? ofStmt ofStmts ofField ofFieldPlace ofFields
  ofMethod ofMethodPlace ofMethods ofSource text? names toSource exprList stmtList)

/-! ### Tags -/

/-- The keys under which annotations stand. -/
def annotationKeys : List Text :=
  ["type", "variable", "function"]

/-- The tag that stands under the key for it. -/
def Json.tag : Json → List Text
  | .string t => [t]
  | _ => []

mutual

/-- The tags in a document, depth first and in the order of the keys, without those in
annotations. -/
def Json.tags : Json → List Text
  | .array items => tagsOfItems items
  | .object entries => tagsOfEntries entries
  | _ => []

/-- The tags in the items of a list. -/
def tagsOfItems : List Json → List Text
  | [] => []
  | d :: ds => d.tags ++ tagsOfItems ds

/-- The tags in the entries of an object. -/
def tagsOfEntries : List (Text × Json) → List Text
  | [] => []
  | (key, d) :: rest =>
    (if key = "_type" then d.tag else if key ∈ annotationKeys then [] else d.tags)
      ++ tagsOfEntries rest

end

/-- The names of nodes. -/
def Node.names (ns : List Node) : List (Option Text) :=
  ns.map fun n => n.name?.map fun name => (name : Text)

@[simp] theorem Node.names_nil : Node.names [] = [] :=
  rfl

@[simp] theorem Node.names_cons (n : Node) (ns : List Node) :
    Node.names (n :: ns) = n.name?.map (fun name => (name : Text)) :: Node.names ns :=
  rfl

@[simp] theorem Node.names_append (ns ms : List Node) :
    Node.names (ns ++ ms) = Node.names ns ++ Node.names ms :=
  List.map_append

/-! ### Parts without tags -/

@[simp] theorem tags_null : Json.null.tags = [] :=
  rfl

@[simp] theorem tags_string (t : Text) : (Json.string t).tags = [] :=
  rfl

@[simp] theorem tags_array (items : List Json) : (Json.array items).tags = tagsOfItems items := by
  rw [Json.tags]

@[simp] theorem tags_text? (t : Option Text) : (text? t).tags = [] := by
  cases t <;> rfl

@[simp] theorem tags_names (ns : List Name) : (names ns).tags = [] := by
  rw [names, tags_array]
  induction ns with
  | nil => rfl
  | cons n ns ih => rw [List.map_cons, tagsOfItems, tags_text?, ih, List.nil_append]

/-- The payload of a literal is an object, but no node. -/
theorem tags_payload {kind : Text} {d : Json} (h : d.tags = []) :
    (Document.payload kind d).tags = [] := by
  simp [Document.payload, Json.tags, tagsOfEntries, annotationKeys, h]

theorem tags_ofValue {v : Value} {w : Json} (h : ofValue v = .ok w) : w.tags = [] := by
  cases v with
  | integer n =>
    rw [ofValue] at h
    split at h <;> cases h
    exact tags_payload rfl
  | iterable _ | object _ => cases h
  | _ =>
    cases h
    exact tags_payload rfl

@[simp] theorem tags_ofForm (form : Form) (parts : List (Text × Json)) :
    (ofForm form parts).tags = (form.name : Text) :: tagsOfEntries parts := by
  simp [ofForm, Json.tags, tagsOfEntries, Json.tag]

/-! ### Expressions -/

/-- A tree is written, and the tags of what is written are the names of the nodes of its walk. -/
def Tagged {α : Type} (write : α → Except Document.WriteFault Json) (a : α) (walk : List Node) :
    Prop :=
  ∃ w, write a = .ok w ∧ w.tags.map some = Node.names walk

/-- Trees are written one after the other, and the tags are the names of the nodes of all. -/
def AllTagged {α : Type} (write : α → Except Document.WriteFault (List Json)) (a : α)
    (walk : List Node) : Prop :=
  ∃ ws, write a = .ok ws ∧ (tagsOfItems ws).map some = Node.names walk

/-- A list is written as a list, unless it is missing. -/
theorem exprList_of_spelled {es : List Expr} (h : AllSpelled (walkExprs es)) (ws : List Json) :
    exprList es ws = .array ws := by
  unfold exprList
  split
  · exact absurd h (by simp [walkExprs, Expr.walk, Hole.walk, Node.Spelled])
  · rfl

theorem stmtList_of_spelled {ss : List Stmt} (h : AllSpelled (walkStmts ss)) (ws : List Json) :
    stmtList ss ws = .array ws := by
  unfold stmtList
  split
  · exact absurd h (by simp [walkStmts, Stmt.walk, Hole.walk, Node.Spelled])
  · rfl

mutual

theorem tagged_expr : (e : Expr) → AllSpelled e.walk → Tagged ofExpr e e.walk
  | .literal v t, h => by
    rw [Expr.walk, allSpelled_cons] at h
    obtain ⟨w, hw⟩ := h.1
    refine ⟨_, by rw [ofExpr, hw]; rfl, ?_⟩
    simp [tagsOfEntries, annotationKeys, tags_ofValue hw, Expr.walk, Node.name?, Expr.nodeName]
  | .group e t, h => by
    rw [Expr.walk, allSpelled_cons] at h
    obtain ⟨w, hw, tags⟩ := tagged_expr e h.2
    refine ⟨_, by rw [ofExpr, hw]; rfl, ?_⟩
    simp [tagsOfEntries, annotationKeys, tags, Expr.walk, Node.name?, Expr.nodeName]
  | .binary op l r t, h => by
    rw [Expr.walk, allSpelled_cons, allSpelled_append] at h
    obtain ⟨wl, hl, tagsLeft⟩ := tagged_expr l h.2.1
    obtain ⟨wr, hr, tagsRight⟩ := tagged_expr r h.2.2
    refine ⟨_, by rw [ofExpr, hl, hr]; rfl, ?_⟩
    simp [tagsOfEntries, annotationKeys, tagsLeft, tagsRight, Expr.walk, Node.name?, Expr.nodeName]
  | .access name v t, h => by
    refine ⟨_, rfl, ?_⟩
    simp [tagsOfEntries, annotationKeys, Expr.walk, Node.name?, Expr.nodeName]
  | .member receiver name v t, h => by
    rw [Expr.walk, allSpelled_cons] at h
    obtain ⟨w, hw, tags⟩ := tagged_expr receiver h.2
    refine ⟨_, by rw [ofExpr, hw]; rfl, ?_⟩
    simp [tagsOfEntries, annotationKeys, tags, Expr.walk, Node.name?, Expr.nodeName]
  | .call name arguments f t, h => by
    rw [Expr.walk, allSpelled_cons] at h
    obtain ⟨ws, hws, tags⟩ := tagged_exprs arguments h.2
    refine ⟨_, by rw [ofExpr, hws]; rfl, ?_⟩
    simp [tagsOfEntries, annotationKeys, exprList_of_spelled h.2, tags, Expr.walk, Node.name?,
      Expr.nodeName]
  | .memberCall receiver name arguments f t, h => by
    rw [Expr.walk, allSpelled_cons, allSpelled_append] at h
    obtain ⟨w, hw, tagsReceiver⟩ := tagged_expr receiver h.2.1
    obtain ⟨ws, hws, tags⟩ := tagged_exprs arguments h.2.2
    refine ⟨_, by rw [ofExpr, hw, hws]; rfl, ?_⟩
    simp [tagsOfEntries, annotationKeys, exprList_of_spelled h.2.2, tagsReceiver, tags, Expr.walk,
      Node.name?, Expr.nodeName]
  | .hole k, h => absurd h k.not_spelled

theorem tagged_exprs : (es : List Expr) → AllSpelled (walkExprs es) →
    AllTagged ofExprs es (walkExprs es)
  | [], _ => ⟨[], rfl, rfl⟩
  | e :: es, h => by
    rw [walkExprs, allSpelled_append] at h
    obtain ⟨w, hw, tags⟩ := tagged_expr e h.1
    obtain ⟨ws, hws, tagsRest⟩ := tagged_exprs es h.2
    refine ⟨w :: ws, by rw [ofExprs, hw, hws]; rfl, ?_⟩
    simp [tagsOfItems, tags, tagsRest, walkExprs]

end

theorem tagged_option {e : Option Expr} (h : AllSpelled (walkOption e)) :
    Tagged ofExpr? e (walkOption e) := by
  cases e with
  | none => exact ⟨.null, rfl, rfl⟩
  | some e => exact tagged_expr e h

/-! ### Statements -/

mutual

theorem tagged_stmt : (s : Stmt) → AllSpelled s.walk → Tagged ofStmt s s.walk
  | .expression e, h => by
    rw [Stmt.walk, allSpelled_cons] at h
    obtain ⟨w, hw, tags⟩ := tagged_expr e h.2
    refine ⟨_, by rw [ofStmt, hw]; rfl, ?_⟩
    simp [tagsOfEntries, annotationKeys, tags, Stmt.walk, Node.name?, Stmt.nodeName]
  | .declaration name typeName value v, h => by
    rw [Stmt.walk, allSpelled_cons] at h
    obtain ⟨w, hw, tags⟩ := tagged_option h.2
    refine ⟨_, by rw [ofStmt, hw]; rfl, ?_⟩
    simp [tagsOfEntries, annotationKeys, tags, Stmt.walk, Node.name?, Stmt.nodeName]
  | .assignment target value, h => by
    rw [Stmt.walk, allSpelled_cons, allSpelled_append] at h
    obtain ⟨wt, ht, tagsTarget⟩ := tagged_expr target h.2.1
    obtain ⟨wv, hv, tagsValue⟩ := tagged_expr value h.2.2
    refine ⟨_, by rw [ofStmt, ht, hv]; rfl, ?_⟩
    simp [tagsOfEntries, annotationKeys, tagsTarget, tagsValue, Stmt.walk, Node.name?,
      Stmt.nodeName]
  | .conditional condition thenBody elseBody, h => by
    rw [Stmt.walk, allSpelled_cons, allSpelled_append, allSpelled_append] at h
    obtain ⟨w, hw, tags⟩ := tagged_expr condition h.2.1
    obtain ⟨wts, hts, tagsThen⟩ := tagged_stmts thenBody h.2.2.1
    obtain ⟨wes, hes, tagsElse⟩ := tagged_stmts elseBody h.2.2.2
    refine ⟨_, by rw [ofStmt, hw, hts, hes]; rfl, ?_⟩
    simp [tagsOfEntries, annotationKeys, stmtList_of_spelled h.2.2.1,
      stmtList_of_spelled h.2.2.2, tags, tagsThen, tagsElse, Stmt.walk, Node.name?, Stmt.nodeName]
  | .forEach name value body, h => by
    rw [Stmt.walk, allSpelled_cons, allSpelled_append] at h
    obtain ⟨w, hw, tags⟩ := tagged_expr value h.2.1
    obtain ⟨ws, hws, tagsBody⟩ := tagged_stmts body h.2.2
    refine ⟨_, by rw [ofStmt, hw, hws]; rfl, ?_⟩
    simp [tagsOfEntries, annotationKeys, stmtList_of_spelled h.2.2, tags, tagsBody, Stmt.walk,
      Node.name?, Stmt.nodeName]
  | .whileLoop condition body, h => by
    rw [Stmt.walk, allSpelled_cons, allSpelled_append] at h
    obtain ⟨w, hw, tags⟩ := tagged_expr condition h.2.1
    obtain ⟨ws, hws, tagsBody⟩ := tagged_stmts body h.2.2
    refine ⟨_, by rw [ofStmt, hw, hws]; rfl, ?_⟩
    simp [tagsOfEntries, annotationKeys, stmtList_of_spelled h.2.2, tags, tagsBody, Stmt.walk,
      Node.name?, Stmt.nodeName]
  | .returning value, h => by
    rw [Stmt.walk, allSpelled_cons] at h
    obtain ⟨w, hw, tags⟩ := tagged_expr value h.2
    refine ⟨_, by rw [ofStmt, hw]; rfl, ?_⟩
    simp [tagsOfEntries, annotationKeys, tags, Stmt.walk, Node.name?, Stmt.nodeName]
  | .hole k, h => absurd h k.not_spelled

theorem tagged_stmts : (ss : List Stmt) → AllSpelled (walkStmts ss) →
    AllTagged ofStmts ss (walkStmts ss)
  | [], _ => ⟨[], rfl, rfl⟩
  | s :: ss, h => by
    rw [walkStmts, allSpelled_append] at h
    obtain ⟨w, hw, tags⟩ := tagged_stmt s h.1
    obtain ⟨ws, hws, tagsRest⟩ := tagged_stmts ss h.2
    refine ⟨w :: ws, by rw [ofStmts, hw, hws]; rfl, ?_⟩
    simp [tagsOfItems, tags, tagsRest, walkStmts]

end

/-! ### Sources -/

theorem tagged_field {p : FieldPlace} (h : AllSpelled p.walk) : Tagged ofFieldPlace p p.walk := by
  cases p with
  | field f =>
    rw [FieldPlace.walk, allSpelled_cons] at h
    obtain ⟨w, hw, tags⟩ := tagged_option h.2
    refine ⟨_, by rw [ofFieldPlace, ofField, hw]; rfl, ?_⟩
    simp [tagsOfEntries, annotationKeys, tags, FieldPlace.walk, Node.name?, FieldPlace.nodeName]
  | declaration f =>
    rw [FieldPlace.walk, allSpelled_cons] at h
    exact h.1.elim
  | hole k => exact absurd h k.not_spelled

theorem tagged_method {p : MethodPlace} (h : AllSpelled p.walk) :
    Tagged ofMethodPlace p p.walk := by
  cases p with
  | method m =>
    rw [MethodPlace.walk, allSpelled_cons] at h
    obtain ⟨ws, hws, tags⟩ := tagged_stmts m.body h.2
    refine ⟨_, by rw [ofMethodPlace, ofMethod, hws]; rfl, ?_⟩
    simp [tagsOfEntries, annotationKeys, stmtList_of_spelled h.2, tags, MethodPlace.walk,
      Node.name?, MethodPlace.nodeName]
  | untyped m =>
    rw [MethodPlace.walk, allSpelled_cons] at h
    exact h.1.elim
  | hole k => exact absurd h k.not_spelled

theorem tagged_places {β : Type} {write : β → Except Document.WriteFault Json}
    {walk : β → List Node} (place : ∀ p, AllSpelled (walk p) → Tagged write p (walk p))
    (ps : List β) (h : AllSpelled (ps.flatMap walk)) :
    AllTagged (List.mapM write) ps (ps.flatMap walk) := by
  induction ps with
  | nil => exact ⟨[], rfl, rfl⟩
  | cons p ps ih =>
    rw [List.flatMap_cons, allSpelled_append] at h
    obtain ⟨w, hw, tags⟩ := place p h.1
    obtain ⟨ws, hws, tagsRest⟩ := ih h.2
    refine ⟨w :: ws, by rw [List.mapM_cons, hw, hws]; rfl, ?_⟩
    simp [tagsOfItems, tags, tagsRest]

/-- A list of fields is written as a list, unless it is missing. -/
theorem ofFields_of_spelled {ps : List FieldPlace} (h : AllSpelled (ps.flatMap FieldPlace.walk)) :
    ofFields ps = (ps.mapM ofFieldPlace).map .array := by
  unfold ofFields
  split
  · exact absurd h (by simp [FieldPlace.walk, Hole.walk, Node.Spelled])
  · rfl

theorem ofMethods_of_spelled {ps : List MethodPlace}
    (h : AllSpelled (ps.flatMap MethodPlace.walk)) :
    ofMethods ps = (ps.mapM ofMethodPlace).map .array := by
  unfold ofMethods
  split
  · exact absurd h (by simp [MethodPlace.walk, Hole.walk, Node.Spelled])
  · rfl

theorem tagged_source {s : Source} (h : AllSpelled s.walk) : Tagged ofSource s s.walk := by
  rw [Source.walk, allSpelled_cons, allSpelled_append] at h
  obtain ⟨fs, hfs, tagsFields⟩ := tagged_places (fun _ => tagged_field) s.fields h.2.1
  obtain ⟨ms, hms, tagsMethods⟩ := tagged_places (fun _ => tagged_method) s.methods h.2.2
  refine ⟨ofForm .source [("fields", .array fs), ("methods", .array ms)], ?_, ?_⟩
  · rw [ofSource, ofFields_of_spelled h.2.1, ofMethods_of_spelled h.2.2, hfs, hms]
    rfl
  · simp [tagsOfEntries, annotationKeys, tagsFields, tagsMethods, Source.walk, Node.name?]

/-- **A walk and a document have the same nodes.**  A walk through a source that was read, and
annotated since or not, yields what stands at each position in it once, every node before those
below it and siblings in the order of the source; and the source is written, as a document in which
the tags of nodes, in the order of the keys and without those in annotations, are the names of what
the walk yields. -/
theorem Source.walk_matches_document {d : Json} {s t : Source} (read : toSource d = .ok s)
    (annotated : s.Annotated t) :
    (∃ positions, Enumerates (Node.source t).at? t.walk positions) ∧
      ∃ w, ofSource t = .ok w ∧ w.tags.map some = Node.names t.walk :=
  ⟨t.walk_enumerates, tagged_source (annotated.spelled read)⟩

open Document in
/-- Six nodes of a source whose check stopped at a fault. -/
theorem uneven_walk_matches_document :
    toSource unevenDocument = .ok uneven ∧
      ∃ w, ofSource (uneven.analyze Host.none .initial).tree = .ok w ∧
        w.tags = ["Source", "Field", "Literal", "Field", "Literal", "Method"] := by
  have read : toSource unevenDocument = .ok uneven := (toSource_ok _ _).mpr uneven_spelled
  have annotated : uneven.Annotated (uneven.analyze Host.none .initial).tree := .checked .read _ _
  obtain ⟨-, w, written, tags⟩ := Source.walk_matches_document read annotated
  refine ⟨read, w, written, ?_⟩
  have names : Node.names (uneven.analyze Host.none .initial).tree.walk =
      (["Source", "Field", "Literal", "Field", "Literal", "Method"] : List Text).map some := by
    decide +kernel
  rw [names] at tags
  exact List.map_injective_iff.mpr (fun _ _ => Option.some.inj) tags

end Parlance
