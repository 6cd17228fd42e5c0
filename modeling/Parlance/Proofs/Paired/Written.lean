/-
Trees that are alike are written alike.

Of an annotation a document shows names: those of a variable or a function, and those of types.
So if a likeness does not let these differ, and nothing is renamed, trees that are alike become
the same document, or cannot be written for the same reason.
-/
import Parlance.Document.Writer
import Parlance.Proofs.Paired.Code

namespace Parlance

open Document

/-- What is alike is written alike. -/
structure Likeness.Written (k : Likeness) : Prop where
  renamings : ∀ {ν}, k.renamings ν → ∀ n, ν.name n = n
  typeNames : ∀ {e t t'}, k.typeNames e t t' → t' = t
  types : ∀ {t t'}, k.types t t' → type? t' = type? t
  bound : ∀ {v v'}, k.bound v v' → bound? v' = bound? v
  callee : ∀ {f f'}, k.callee f f' → callee? f' = callee? f

variable {k : Likeness} {ν : Renaming}

/-! ### Expressions -/

theorem exprList_alike {es es' : List Expr} (h : List.Forall₂ (Expr.Alike k ν) es es')
    (items : List Json) : exprList es' items = exprList es items := by
  cases h with
  | nil => rfl
  | cons he hes =>
    cases he with
    | @hole g => cases g <;> cases hes <;> rfl
    | _ => rfl

theorem stmtList_alike {ss ss' : List Stmt} (h : List.Forall₂ (Stmt.Alike k ν) ss ss')
    (items : List Json) : stmtList ss' items = stmtList ss items := by
  cases h with
  | nil => rfl
  | cons hs hss =>
    cases hs with
    | @hole g => cases g <;> cases hss <;> rfl
    | _ => rfl

mutual

theorem Expr.Alike.ofExpr_eq (hk : k.Written) (hν : ∀ n, ν.name n = n) : (e : Expr) →
    {e' : Expr} → e.Alike k ν e' → ofExpr e' = ofExpr e
  | .literal _ _, _, h => by
    cases h with
    | literal _ ht => simp only [ofExpr, hk.types ht]
  | .group e _, _, h => by
    cases h with
    | group he ht => simp only [ofExpr, he.ofExpr_eq hk hν e, hk.types ht]
  | .binary _ l r _, _, h => by
    cases h with
    | binary hl hr ht =>
      simp only [ofExpr, hl.ofExpr_eq hk hν l, hr.ofExpr_eq hk hν r, hk.types ht]
  | .access _ _ _, _, h => by
    cases h with
    | access _ hv ht => simp only [ofExpr, hν, hk.bound hv, hk.types ht]
  | .member r _ _ _, _, h => by
    cases h with
    | member hr hv ht => simp only [ofExpr, hr.ofExpr_eq hk hν r, hk.bound hv, hk.types ht]
  | .call _ as _ _, _, h => by
    cases h with
    | call has hf ht =>
      simp only [ofExpr, ofExprs_alike hk hν as has, exprList_alike has, hk.callee hf,
        hk.types ht]
  | .memberCall r _ as _ _, _, h => by
    cases h with
    | memberCall hr has hf ht =>
      simp only [ofExpr, hr.ofExpr_eq hk hν r, ofExprs_alike hk hν as has, exprList_alike has,
        hk.callee hf, hk.types ht]
  | .hole _, _, h => by
    cases h
    rfl

theorem ofExprs_alike (hk : k.Written) (hν : ∀ n, ν.name n = n) : (es : List Expr) →
    {es' : List Expr} → List.Forall₂ (Expr.Alike k ν) es es' → ofExprs es' = ofExprs es
  | [], _, h => by
    cases h
    rfl
  | e :: es, _, h => by
    cases h with
    | cons he hes => rw [ofExprs, ofExprs, he.ofExpr_eq hk hν e, ofExprs_alike hk hν es hes]

end

theorem ofExpr?_alike (hk : k.Written) (hν : ∀ n, ν.name n = n) {e e' : Option Expr}
    (h : Option.Rel (Expr.Alike k ν) e e') : ofExpr? e' = ofExpr? e := by
  cases h with
  | none => rfl
  | some h => exact h.ofExpr_eq hk hν _

/-! ### Statements -/

mutual

theorem Stmt.Alike.ofStmt_eq (hk : k.Written) (hν : ∀ n, ν.name n = n) : (s : Stmt) →
    {s' : Stmt} → s.Alike k ν s' → ofStmt s' = ofStmt s
  | .expression e, _, h => by
    cases h with
    | expression he => rw [ofStmt, ofStmt, he.ofExpr_eq hk hν e]
  | .declaration _ _ _ _, _, h => by
    cases h with
    | declaration he ht hv =>
      rw [ofStmt, ofStmt, ofExpr?_alike hk hν he, hk.typeNames ht, hk.bound hv, hν]
  | .assignment t v, _, h => by
    cases h with
    | assignment ht hv => rw [ofStmt, ofStmt, ht.ofExpr_eq hk hν t, hv.ofExpr_eq hk hν v]
  | .conditional c a b, _, h => by
    cases h with
    | conditional hc ha hb =>
      simp only [ofStmt, hc.ofExpr_eq hk hν c, ofStmts_alike hk hν a ha,
        ofStmts_alike hk hν b hb, stmtList_alike ha, stmtList_alike hb]
  | .forEach _ v b, _, h => by
    cases h with
    | forEach hv hb =>
      simp only [ofStmt, hν, hv.ofExpr_eq hk hν v, ofStmts_alike hk hν b hb, stmtList_alike hb]
  | .whileLoop c b, _, h => by
    cases h with
    | whileLoop hc hb =>
      simp only [ofStmt, hc.ofExpr_eq hk hν c, ofStmts_alike hk hν b hb, stmtList_alike hb]
  | .returning e, _, h => by
    cases h with
    | returning he => rw [ofStmt, ofStmt, he.ofExpr_eq hk hν e]
  | .hole _, _, h => by
    cases h
    rfl

theorem ofStmts_alike (hk : k.Written) (hν : ∀ n, ν.name n = n) : (ss : List Stmt) →
    {ss' : List Stmt} → List.Forall₂ (Stmt.Alike k ν) ss ss' → ofStmts ss' = ofStmts ss
  | [], _, h => by
    cases h
    rfl
  | s :: ss, _, h => by
    cases h with
    | cons hs hss => rw [ofStmts, ofStmts, hs.ofStmt_eq hk hν s, ofStmts_alike hk hν ss hss]

end

/-! ### Sources -/

theorem FieldPlace.Alike.ofFieldPlace_eq (hk : k.Written) {f f' : FieldPlace}
    (h : f.Alike k f') : ofFieldPlace f' = ofFieldPlace f := by
  have field {form : Form} {g g' : Field} (h : g.Alike k g') :
      ofField form g' = ofField form g := by
    simp only [ofField, h.name, hk.typeNames h.typeName, hk.bound h.bound,
      ofExpr?_alike hk (fun _ => rfl) h.value]
  cases h with
  | field h => exact field h
  | declaration h => exact field h
  | stray _ => rfl
  | unlisted => rfl

theorem MethodPlace.Alike.ofMethodPlace_eq (hk : k.Written) {m m' : MethodPlace}
    (h : m.Alike k m') : ofMethodPlace m' = ofMethodPlace m := by
  cases h with
  | method hν h =>
    have hν := hk.renamings hν
    have hparameters := h.parameters
    rw [List.map_congr_left (g := id) fun n _ => hν n, List.map_id] at hparameters
    simp only [ofMethodPlace, ofMethod, h.name, hparameters, h.parameterTypeNames,
      h.returnTypeName, hk.callee h.bound, ofStmts_alike hk hν _ h.body, stmtList_alike h.body]
  | untyped _ _ => rfl
  | hole => rfl

theorem mapM_alike {α β ε : Type} {R : α → α → Prop} {f : α → Except ε β}
    (hf : ∀ {a a'}, R a a' → f a' = f a) {as as' : List α} (h : List.Forall₂ R as as') :
    as'.mapM f = as.mapM f := by
  induction h with
  | nil => rfl
  | cons h _ ih => rw [List.mapM_cons, List.mapM_cons, hf h, ih]

/-- **Sources that are alike are written alike.** -/
theorem Source.Alike.ofSource_eq (hk : k.Written) {s s' : Source} (h : s.Alike k s') :
    ofSource s' = ofSource s := by
  have fields : ofFields s'.fields = ofFields s.fields := by
    have items := mapM_alike (fun h => FieldPlace.Alike.ofFieldPlace_eq hk h) h.fields
    have hfields := h.fields
    generalize s.fields = fs at items hfields
    generalize s'.fields = fs' at items hfields
    unfold ofFields
    cases hfields with
    | nil => rfl
    | cons hf hfs =>
      cases hf <;> cases hfs <;> first | rfl | simp only [items]
  have methods : ofMethods s'.methods = ofMethods s.methods := by
    have items := mapM_alike (fun h => MethodPlace.Alike.ofMethodPlace_eq hk h) h.methods
    have hmethods := h.methods
    generalize s.methods = ms at items hmethods
    generalize s'.methods = ms' at items hmethods
    unfold ofMethods
    cases hmethods with
    | nil => rfl
    | cons hm hms =>
      cases hm with
      | @hole g => cases g <;> cases hms <;> first | rfl | simp only [items]
      | _ => cases hms <;> simp only [items]
  simp only [ofSource, fields, methods]

end Parlance
