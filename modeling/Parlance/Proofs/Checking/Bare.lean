/-
Checking annotates a tree and changes nothing else.

Whether a check passes or stops at a fault, and wherever it stops, the tree that it answers is
the tree that was given, up to annotations.  So a tree that was checked any number of times, by
any passes, is still the program that was read.
-/
import Parlance.Checker.Source
import Parlance.Proofs.Syntax.Bare

namespace Parlance

namespace Expr

variable {c : Context}

theorem settle_bare {node : Option Ty → Expr} {old : Option Ty}
    {found : Except Fault (Option Ty)} {e : Expr} (h : ∀ t, (node t).bare = e) :
    (settle node old found).1.bare = e := by
  cases found with
  | ok t => exact h t
  | error f => exact h old

theorem resolve_bare {α : Type} {node : Option α → Option Ty → Expr} {bound : Option α}
    {old : Option Ty} {found : Except Fault (α × Option Ty)} {e : Expr}
    (h : ∀ b t, (node b t).bare = e) : (resolve node bound old found).1.bare = e := by
  cases found with
  | ok bt => exact h (some bt.1) bt.2
  | error f => exact h bound old

mutual

theorem check_bare : (e : Expr) → (e.check c).1.bare = e.bare
  | .literal v old => by
    rw [check]
    exact settle_bare fun _ => rfl
  | .group e old => by
    have he := check_bare e
    rw [check]
    split
    · refine settle_bare fun _ => ?_
      rw [Expr.bare, Expr.bare, he]
    · rfl
  | .binary op l r old => by
    have hl := check_bare l
    have hr := check_bare r
    rw [check]
    split
    · next l' f h => rw [Expr.bare, Expr.bare, ← hl, h]
    · next l' t h =>
      rw [h] at hl
      split
      · next r' f h => rw [Expr.bare, Expr.bare, ← hl, ← hr, h]
      · next r' t h =>
        rw [h] at hr
        refine settle_bare fun _ => ?_
        rw [Expr.bare, Expr.bare, ← hl, ← hr]
  | .access name bound old => by
    rw [check]
    exact resolve_bare fun _ _ => rfl
  | .member receiver name bound old => by
    have hr := check_bare receiver
    rw [check]
    split
    · split
      · next r f h => rw [Expr.bare, Expr.bare, ← hr, h]
      · next r t h =>
        rw [h] at hr
        refine resolve_bare fun _ _ => ?_
        rw [Expr.bare, Expr.bare, ← hr]
    · rfl
  | .call name arguments bound old => by
    have ha := checkAll_bare arguments
    rw [check]
    split
    · next as f h => rw [Expr.bare, Expr.bare, ← ha, h]
    · next as ts h =>
      rw [h] at ha
      refine resolve_bare fun _ _ => ?_
      rw [Expr.bare, Expr.bare, ← ha]
  | .memberCall receiver name arguments bound old => by
    have hr := check_bare receiver
    have ha := checkAll_bare arguments
    rw [check]
    split
    · next as f h => rw [Expr.bare, Expr.bare, ← ha, h]
    · next as ts h =>
      rw [h] at ha
      split
      · split
        · next r f h => rw [Expr.bare, Expr.bare, ← ha, ← hr, h]
        · next r t h =>
          rw [h] at hr
          refine resolve_bare fun _ _ => ?_
          rw [Expr.bare, Expr.bare, ← ha, ← hr]
      · rw [Expr.bare, Expr.bare, ← ha]
  | .hole h => rfl

theorem checkAll_bare : (es : List Expr) → bareExprs (checkAll c es).1 = bareExprs es
  | [] => rfl
  | e :: es => by
    have he := check_bare e
    have hes := checkAll_bare es
    rw [checkAll]
    split
    · next e' f h => rw [bareExprs, bareExprs, ← he, h]
    · next e' t h =>
      rw [h] at he
      split
      · next es' f h => rw [bareExprs, bareExprs, ← he, ← hes, h]
      · next es' ts h => rw [bareExprs, bareExprs, ← he, ← hes, h]

end

end Expr

/-! ### Statements -/

theorem checkDeclared_bare (c : Context) (name : Name) (typeName : Option Text)
    (value : Option Expr) :
    (checkDeclared c name typeName value).1.map Expr.bare = value.map Expr.bare := by
  unfold checkDeclared
  split
  · rfl
  · rfl
  · exact congrArg some (Expr.check_bare _)
  · split
    · rfl
    · exact congrArg some (Expr.check_bare _)

theorem checkCondition_bare {c : Context} {e : Expr} : (checkCondition c e).1.bare = e.bare :=
  Expr.check_bare e

namespace Stmt

mutual

theorem check_bare {c : Context} : (s : Stmt) → (s.check c).1.bare = s.bare
  | .expression e => by
    rw [check]
    split
    · exact congrArg Stmt.expression (Expr.check_bare e)
    · rfl
  | .declaration name typeName value bound => by
    have hv := checkDeclared_bare c name typeName value
    rw [check]
    simp only
    split
    all_goals rw [Stmt.bare, Stmt.bare, hv]
  | .assignment target value => by
    have ht := Expr.check_bare (c := c) target
    rw [check]
    split
    · split
      · next t f h => rw [Stmt.bare, Stmt.bare, ← ht, h]
      · next t ty h =>
        rw [h] at ht
        simp only [Stmt.bare, Expr.check_bare, ← ht]
    · rfl
  | .conditional condition thenBody elseBody => by
    have hc := checkCondition_bare (c := c) (e := condition)
    have ht := checkAll_bare (c := c.enter []) thenBody
    have he := checkAll_bare (c := c.enter []) elseBody
    rw [check]
    split
    · next e f h => rw [Stmt.bare, Stmt.bare, ← hc, h]
    · next e _ h =>
      rw [h] at hc
      split
      · rw [Stmt.bare, Stmt.bare, ← hc]
      · split
        · next b f h => rw [Stmt.bare, Stmt.bare, ← hc, ← ht, h]
        · next b _ h =>
          rw [h] at ht
          simp only [Stmt.bare, he, ← hc, ← ht]
  | .forEach name value body => by
    have hv := Expr.check_bare (c := c) value
    rw [check]
    simp only
    split
    · simp only [Stmt.bare, hv]
    · split
      · simp only [Stmt.bare, hv]
      · simp only [Stmt.bare, hv, checkAll_bare body]
  | .whileLoop condition body => by
    have hc := checkCondition_bare (c := c) (e := condition)
    rw [check]
    split
    · next e f h => rw [Stmt.bare, Stmt.bare, ← hc, h]
    · next e _ h =>
      rw [h] at hc
      simp only [Stmt.bare, checkAll_bare body, ← hc]
  | .returning value => by
    rw [check]
    split
    · rfl
    · exact congrArg Stmt.returning (Expr.check_bare value)
  | .hole h => rfl

theorem checkAll_bare {c : Context} : (ss : List Stmt) → bareStmts (checkAll c ss).1 = bareStmts ss
  | [] => rfl
  | s :: ss => by
    have hs := check_bare (c := c) s
    rw [checkAll]
    split
    · next s' f h => rw [bareStmts, bareStmts, ← hs, h]
    · next s' declared h =>
      rw [h] at hs
      simp only [bareStmts, checkAll_bare ss, ← hs]

end

end Stmt

/-! ### Sources -/

section Sources

variable (pass : Pass)

theorem Pass.checkField_bare (f : Field) (σ : Store) :
    (pass.checkField f σ).tree.bare = f.bare := by
  have hv := checkDeclared_bare (pass.context σ) f.name f.typeName f.value
  unfold checkField
  simp only
  split
  all_goals simp only [Field.bare, hv]

theorem Pass.checkFieldPlace_bare (p : FieldPlace) (σ : Store) :
    (pass.checkFieldPlace p σ).tree.bare = p.bare := by
  cases p with
  | field f => exact congrArg FieldPlace.field (pass.checkField_bare f σ)
  | declaration f => exact congrArg FieldPlace.declaration (pass.checkField_bare f σ)
  | hole h => rfl

theorem Pass.checkMethod_bare (m : Method) (σ : Store) :
    (pass.checkMethod m σ).tree.bare = m.bare := by
  unfold checkMethod
  split
  · rfl
  · split
    · rfl
    · simp only [Method.bare, Method.checkBody]
      split
      · rfl
      · simp only [Stmt.checkAll_bare]

theorem Pass.checkMethodPlace_bare (p : MethodPlace) (σ : Store) :
    (pass.checkMethodPlace p σ).tree.bare = p.bare := by
  cases p with
  | method m => exact congrArg MethodPlace.method (pass.checkMethod_bare m σ)
  | untyped m => rfl
  | hole h => rfl

theorem checkInOrder_map {α β : Type} {check : α → Store → Checked α} {f : α → β}
    (h : ∀ a σ, f (check a σ).tree = f a) (as : List α) (σ : Store) :
    (checkInOrder check as σ).tree.map f = as.map f := by
  induction as generalizing σ with
  | nil => rfl
  | cons a as ih =>
    have ha := h a σ
    rw [checkInOrder]
    split
    · next a' fault σ' heq =>
      rw [heq] at ha
      rw [List.map_cons, List.map_cons, ← ha]
    · next a' _ σ' heq =>
      rw [heq] at ha
      simp only [List.map_cons, ih, ← ha]

/-- **A check keeps the program**, whether it passes or not. -/
theorem Pass.check_bare (s : Source) (σ : Store) : (pass.check s σ).tree.bare = s.bare := by
  have hf := checkInOrder_map pass.checkFieldPlace_bare s.fields σ
  unfold check
  split
  · rfl
  · split
    · next fields f σ' h =>
      rw [h] at hf
      simp only [Source.bare, hf]
    · next fields _ σ' h =>
      rw [h] at hf
      have hm := checkInOrder_map pass.checkMethodPlace_bare s.methods σ'
      split
      · next methods f σ'' h =>
        rw [h] at hm
        simp only [Source.bare, hf, hm]
      · next methods _ σ'' h =>
        rw [h] at hm
        simp only [Source.bare, hf, hm]

end Sources

/-- The trees that a source can have become: as it was read, or as checks have left it, be it
that they passed or that they stopped at a fault. -/
inductive Source.Annotated (s : Source) : Source → Prop
  | read : s.Annotated s
  | checked {t : Source} (h : s.Annotated t) (pass : Pass) (σ : Store) :
      s.Annotated (pass.check t σ).tree

theorem Source.Annotated.bare_eq {s t : Source} (h : s.Annotated t) : t.bare = s.bare := by
  induction h with
  | read => rfl
  | checked _ pass σ ih => rw [pass.check_bare, ih]

end Parlance
