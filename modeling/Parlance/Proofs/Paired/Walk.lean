/-
Trees that are alike, node by node.

A walk meets nodes of the same forms in trees that are alike, in the same order.  If the likeness
compares the types in annotations, be it all of a type or only its name, each node has a type that
agrees with that of its counterpart, and is annotated with a variable and a function whose types
agree.
-/
import Parlance.Proofs.Paired.Code
import Parlance.Syntax.Traversal

namespace Parlance

/-! ### Types in annotations -/

/-- The type of the variable that a node is annotated with. The type may be left open. -/
def Node.variableType? : Node → Option (Option Ty)
  | .field (.field f) | .field (.declaration f) => f.bound.map Variable.type
  | .stmt (.declaration _ _ _ v) => v.map Variable.type
  | .expr (.access _ v _) | .expr (.member _ _ v _) => v.map Variable.type
  | _ => none

/-- The types of a function: those of its parameters, and that of its result. -/
def Function.types (f : Function) : List (Option Ty) × Option Ty :=
  (f.parameterTypes, f.returnType)

/-- The types of the function that a node is annotated with. -/
def Node.functionTypes? : Node → Option (List (Option Ty) × Option Ty)
  | .method (.method m) | .method (.untyped m) => m.bound.map Function.types
  | .expr (.call _ _ f _) | .expr (.memberCall _ _ _ f _) => f.map Function.types
  | _ => none

/-- Nodes of the same form, with the same types in their annotations. -/
structure Node.SameTypes (n n' : Node) : Prop where
  name : n'.name? = n.name?
  type : n'.type? = n.type?
  variableType : n'.variableType? = n.variableType?
  functionTypes : n'.functionTypes? = n.functionTypes?

/-- Nodes of the same form, with types in their annotations that agree in what `f` tells of a
type. -/
structure Node.SameBy {β : Type} (f : Ty → β) (n n' : Node) : Prop where
  name : n'.name? = n.name?
  type : n'.type?.map f = n.type?.map f
  variableType : n'.variableType?.map (Option.map f) = n.variableType?.map (Option.map f)
  functionTypes : n'.functionTypes?.map (Prod.map (List.map (Option.map f)) (Option.map f))
    = n.functionTypes?.map (Prod.map (List.map (Option.map f)) (Option.map f))

/-- What is alike has types that agree in what `f` tells of a type. -/
structure Likeness.TypesBy {β : Type} (k : Likeness) (f : Ty → β) : Prop where
  types : ∀ {t t'}, k.types t t' → t'.map f = t.map f
  bound : ∀ {v v'}, k.bound v v' →
    (v'.map Variable.type).map (Option.map f) = (v.map Variable.type).map (Option.map f)
  callee : ∀ {g g'}, k.callee g g' →
    (g'.map Function.types).map (Prod.map (List.map (Option.map f)) (Option.map f))
      = (g.map Function.types).map (Prod.map (List.map (Option.map f)) (Option.map f))

theorem Node.SameBy.refl {β : Type} {f : Ty → β} (n : Node) : n.SameBy f n :=
  ⟨rfl, rfl, rfl, rfl⟩

theorem Node.SameBy.sameTypes {n n' : Node} (h : n.SameBy id n') : n.SameTypes n' := by
  obtain ⟨name, type, variableType, functionTypes⟩ := h
  refine ⟨name, ?_, ?_, ?_⟩
  · simpa using type
  · simpa using variableType
  · simpa using functionTypes

variable {β : Type} {f : Ty → β} {k : Likeness} {ν : Renaming}

/-! ### Expressions -/

mutual

theorem Expr.Alike.walk (hk : k.TypesBy f) : (e : Expr) → {e' : Expr} → e.Alike k ν e' →
    List.Forall₂ (Node.SameBy f) e.walk e'.walk
  | .literal _ _, _, h => by
    cases h with
    | literal _ ht => exact .cons ⟨rfl, hk.types ht, rfl, rfl⟩ .nil
  | .group e _, _, h => by
    cases h with
    | group he ht => exact .cons ⟨rfl, hk.types ht, rfl, rfl⟩ (he.walk hk e)
  | .binary _ l r _, _, h => by
    cases h with
    | binary hl hr ht =>
      exact .cons ⟨rfl, hk.types ht, rfl, rfl⟩ (List.rel_append (hl.walk hk l) (hr.walk hk r))
  | .access _ _ _, _, h => by
    cases h with
    | access _ hv ht => exact .cons ⟨rfl, hk.types ht, hk.bound hv, rfl⟩ .nil
  | .member r _ _ _, _, h => by
    cases h with
    | member hr hv ht => exact .cons ⟨rfl, hk.types ht, hk.bound hv, rfl⟩ (hr.walk hk r)
  | .call _ as _ _, _, h => by
    cases h with
    | call has hf ht =>
      exact .cons ⟨rfl, hk.types ht, rfl, hk.callee hf⟩ (walkExprs_alike hk as has)
  | .memberCall r _ as _ _, _, h => by
    cases h with
    | memberCall hr has hf ht =>
      exact .cons ⟨rfl, hk.types ht, rfl, hk.callee hf⟩
        (List.rel_append (hr.walk hk r) (walkExprs_alike hk as has))
  | .hole _, _, h => by
    cases h
    exact List.forall₂_same.mpr fun n _ => .refl n

theorem walkExprs_alike (hk : k.TypesBy f) : (es : List Expr) → {es' : List Expr} →
    List.Forall₂ (Expr.Alike k ν) es es' →
    List.Forall₂ (Node.SameBy f) (walkExprs es) (walkExprs es')
  | [], _, h => by
    cases h
    exact .nil
  | e :: es, _, h => by
    cases h with
    | cons he hes => exact List.rel_append (he.walk hk e) (walkExprs_alike hk es hes)

end

theorem walkOption_alike (hk : k.TypesBy f) {e e' : Option Expr}
    (h : Option.Rel (Expr.Alike k ν) e e') :
    List.Forall₂ (Node.SameBy f) (walkOption e) (walkOption e') := by
  cases h with
  | none => exact .nil
  | some h => exact h.walk hk _

/-! ### Statements -/

mutual

theorem Stmt.Alike.walk (hk : k.TypesBy f) : (s : Stmt) → {s' : Stmt} → s.Alike k ν s' →
    List.Forall₂ (Node.SameBy f) s.walk s'.walk
  | .expression e, _, h => by
    cases h with
    | expression he => exact .cons ⟨rfl, rfl, rfl, rfl⟩ (he.walk hk e)
  | .declaration _ _ _ _, _, h => by
    cases h with
    | declaration he _ hv => exact .cons ⟨rfl, rfl, hk.bound hv, rfl⟩ (walkOption_alike hk he)
  | .assignment t v, _, h => by
    cases h with
    | assignment ht hv =>
      exact .cons ⟨rfl, rfl, rfl, rfl⟩ (List.rel_append (ht.walk hk t) (hv.walk hk v))
  | .conditional c a b, _, h => by
    cases h with
    | conditional hc ha hb =>
      exact .cons ⟨rfl, rfl, rfl, rfl⟩ (List.rel_append (hc.walk hk c)
        (List.rel_append (walkStmts_alike hk a ha) (walkStmts_alike hk b hb)))
  | .forEach _ v b, _, h => by
    cases h with
    | forEach hv hb =>
      exact .cons ⟨rfl, rfl, rfl, rfl⟩
        (List.rel_append (hv.walk hk v) (walkStmts_alike hk b hb))
  | .whileLoop c b, _, h => by
    cases h with
    | whileLoop hc hb =>
      exact .cons ⟨rfl, rfl, rfl, rfl⟩
        (List.rel_append (hc.walk hk c) (walkStmts_alike hk b hb))
  | .returning e, _, h => by
    cases h with
    | returning he => exact .cons ⟨rfl, rfl, rfl, rfl⟩ (he.walk hk e)
  | .hole _, _, h => by
    cases h
    exact List.forall₂_same.mpr fun n _ => .refl n

theorem walkStmts_alike (hk : k.TypesBy f) : (ss : List Stmt) → {ss' : List Stmt} →
    List.Forall₂ (Stmt.Alike k ν) ss ss' →
    List.Forall₂ (Node.SameBy f) (walkStmts ss) (walkStmts ss')
  | [], _, h => by
    cases h
    exact .nil
  | s :: ss, _, h => by
    cases h with
    | cons hs hss => exact List.rel_append (hs.walk hk s) (walkStmts_alike hk ss hss)

end

/-! ### Sources -/

theorem FieldPlace.Alike.walk (hk : k.TypesBy f) {g g' : FieldPlace} (h : g.Alike k g') :
    List.Forall₂ (Node.SameBy f) g.walk g'.walk := by
  cases h with
  | field h => exact .cons ⟨rfl, rfl, hk.bound h.bound, rfl⟩ (walkOption_alike hk h.value)
  | declaration h => exact .cons ⟨rfl, rfl, hk.bound h.bound, rfl⟩ (walkOption_alike hk h.value)
  | _ => exact List.forall₂_same.mpr fun n _ => .refl n

theorem MethodPlace.Alike.walk (hk : k.TypesBy f) {m m' : MethodPlace} (h : m.Alike k m') :
    List.Forall₂ (Node.SameBy f) m.walk m'.walk := by
  cases h with
  | method _ h => exact .cons ⟨rfl, rfl, rfl, hk.callee h.bound⟩ (walkStmts_alike hk _ h.body)
  | untyped _ h => exact .cons ⟨rfl, rfl, rfl, hk.callee h.bound⟩ (walkStmts_alike hk _ h.body)
  | hole => exact List.forall₂_same.mpr fun n _ => .refl n

theorem flatMap_alike {α : Type} {R : α → α → Prop} {walk : α → List Node}
    (hwalk : ∀ {a a'}, R a a' → List.Forall₂ (Node.SameBy f) (walk a) (walk a')) {as as' : List α}
    (h : List.Forall₂ R as as') :
    List.Forall₂ (Node.SameBy f) (as.flatMap walk) (as'.flatMap walk) := by
  induction h with
  | nil => exact .nil
  | cons h _ ih => exact List.rel_append (hwalk h) ih

/-- **In sources that are alike the nodes have types that agree**, node by node. -/
theorem Source.Alike.walk (hk : k.TypesBy f) {s s' : Source} (h : s.Alike k s') :
    List.Forall₂ (Node.SameBy f) s.walk s'.walk :=
  .cons ⟨rfl, rfl, rfl, rfl⟩ (List.rel_append
    (flatMap_alike (fun h => FieldPlace.Alike.walk hk h) h.fields)
    (flatMap_alike (fun h => MethodPlace.Alike.walk hk h) h.methods))

end Parlance
