/-
Ungrouped code is checked as before.

An expression that passes its check passes it ungrouped, with the same type, and what the check
makes of it is what it made before, ungrouped: a group has the type of what it holds.  Wherever the
check asks for an access or for a call there is none of the groups, so there still is what it asks
for.
-/
import Parlance.Proofs.Checking.Changed
import Parlance.Proofs.Checking.Sound
import Parlance.Proofs.Syntax.Ungroup

namespace Parlance

variable {c : Context}

/-! ### Expressions -/

namespace Expr

mutual

/-- An expression that passes its check passes it ungrouped. -/
theorem check_ungroup {e e' : Expr} {t : Option Ty} (h : e.check c = (e', .ok t)) :
    e.ungroup.check c = (e'.ungroup, .ok t) := by
  cases e with
  | literal v old =>
    rw [check] at h
    obtain ⟨hfound, rfl⟩ := settle_ok h
    rw [ungroup, check, hfound]
    rfl
  | group e old =>
    rw [check] at h
    split at h
    · rcases he : e.check c with ⟨e₁, found⟩
      rw [he] at h
      obtain ⟨rfl, rfl⟩ := settle_ok h
      rw [ungroup, ungroup, check_ungroup he]
    · cases h
  | binary op l r old =>
    rw [check] at h
    rcases hl : l.check c with ⟨l', _ | tl⟩ <;> simp only [hl] at h
    · cases h
    rcases hr : r.check c with ⟨r', _ | tr⟩ <;> simp only [hr] at h
    · cases h
    obtain ⟨hfound, rfl⟩ := settle_ok h
    simp only [ungroup, check, check_ungroup hl, check_ungroup hr, hfound]
    rfl
  | access name bound old =>
    rw [check] at h
    obtain ⟨x, hfound, rfl⟩ := resolve_ok h
    rw [ungroup, check, hfound]
    rfl
  | member receiver name bound old =>
    rw [check] at h
    split at h
    · next haccess =>
      rcases hr : receiver.check c with ⟨receiver', _ | owner⟩ <;> simp only [hr] at h
      · cases h
      obtain ⟨x, hfound, rfl⟩ := resolve_ok h
      simp only [ungroup, check, isAccess_ungroup haccess, check_ungroup hr, hfound, if_true]
      rfl
    · cases h
  | call name arguments bound old =>
    rw [check] at h
    rcases has : checkAll c arguments with ⟨arguments', _ | types⟩ <;> simp only [has] at h
    · cases h
    obtain ⟨f, hfound, rfl⟩ := resolve_ok h
    simp only [ungroup, check, checkAll_ungroup has, hfound]
    rfl
  | memberCall receiver name arguments bound old =>
    rw [check] at h
    rcases has : checkAll c arguments with ⟨arguments', _ | types⟩ <;> simp only [has] at h
    · cases h
    split at h
    · next haccess =>
      rcases hr : receiver.check c with ⟨receiver', _ | owner⟩ <;> simp only [hr] at h
      · cases h
      obtain ⟨f, hfound, rfl⟩ := resolve_ok h
      simp only [ungroup, check, checkAll_ungroup has, isAccess_ungroup haccess, check_ungroup hr,
        hfound, if_true]
      rfl
    · cases h
  | hole g => cases h

/-- Expressions that pass their check pass it ungrouped. -/
theorem checkAll_ungroup {es es' : List Expr} {ts : List (Option Ty)}
    (h : checkAll c es = (es', .ok ts)) :
    checkAll c (ungroupExprs es) = (ungroupExprs es', .ok ts) := by
  match es with
  | [] =>
    cases h
    rfl
  | e :: es =>
    rw [checkAll] at h
    rcases he : e.check c with ⟨e', _ | t⟩ <;> simp only [he] at h
    · cases h
    rcases hes : checkAll c es with ⟨rest, _ | ts⟩ <;> simp only [hes] at h
    · cases h
    cases h
    simp only [ungroupExprs, checkAll, check_ungroup he, checkAll_ungroup hes]

end

end Expr

/-! ### Statements -/

theorem checkDeclared_ungroup {name : Name} {typeName : Option Text} {value value' : Option Expr}
    {t : Option Ty} (h : checkDeclared c name typeName value = (value', .ok t)) :
    checkDeclared c name typeName (value.map Expr.ungroup)
      = (value'.map Expr.ungroup, .ok t) := by
  cases value with
  | none =>
    cases typeName with
    | none => cases h
    | some n =>
      simp only [checkDeclared, Prod.mk.injEq] at h
      obtain ⟨rfl, h⟩ := h
      simp only [Option.map_none, checkDeclared, h]
  | some e =>
    cases typeName with
    | none =>
      simp only [checkDeclared, Prod.mk.injEq] at h
      obtain ⟨rfl, h⟩ := h
      simp only [Option.map_some, checkDeclared, Expr.check_ungroup (Prod.ext rfl h)]
    | some n =>
      simp only [checkDeclared] at h
      split at h
      · cases h
      · next declared hd =>
        simp only [Prod.mk.injEq] at h
        obtain ⟨rfl, h⟩ := h
        obtain ⟨u, hu, h⟩ := Except.bind_ok.mp h
        simp only [Option.map_some, checkDeclared, hd, Expr.check_ungroup (Prod.ext rfl hu)]
        exact congrArg (Prod.mk _) h

theorem checkCondition_ungroup {e e' : Expr} (h : checkCondition c e = (e', .ok ())) :
    checkCondition c e.ungroup = (e'.ungroup, .ok ()) := by
  simp only [checkCondition, Prod.mk.injEq] at h
  obtain ⟨rfl, h⟩ := h
  obtain ⟨t, ht, h⟩ := Except.bind_ok.mp h
  simp only [checkCondition, Expr.check_ungroup (Prod.ext rfl ht)]
  exact congrArg (Prod.mk _) h

namespace Stmt

mutual

/-- A statement that passes its check passes it ungrouped. -/
theorem check_ungroup {c : Context} {s s' : Stmt} {declared : Option Variable}
    (h : s.check c = (s', .ok declared)) :
    (s.ungroupWith Expr.ungroup).check c = (s'.ungroupWith Expr.ungroup, .ok declared) := by
  cases s with
  | expression e =>
    simp only [check] at h
    split at h
    · next hcall =>
      simp only [Prod.mk.injEq] at h
      obtain ⟨rfl, h⟩ := h
      obtain ⟨t, ht, rfl⟩ := Except.map_ok.mp h
      simp only [ungroupWith, check, Expr.isCall_ungroup hcall, if_true,
        Expr.check_ungroup (Prod.ext rfl ht)]
      rfl
    · cases h
  | declaration name typeName value bound =>
    simp only [check] at h
    split at h
    · next v hv =>
      cases h
      obtain ⟨t, ht, hv⟩ := Except.bind_ok.mp hv
      simp only [ungroupWith, check, checkDeclared_ungroup (Prod.ext rfl ht), Except.bind, hv]
    · cases h
  | assignment target value =>
    simp only [check] at h
    split at h
    · next haccess =>
      split at h
      · cases h
      · next target' expected ht =>
        simp only [Prod.mk.injEq] at h
        obtain ⟨rfl, h⟩ := h
        obtain ⟨t, hv, h⟩ := Except.bind_ok.mp h
        simp only [ungroupWith, check, Expr.isAccess_ungroup haccess, if_true,
          Expr.check_ungroup ht, Expr.check_ungroup (Prod.ext rfl hv)]
        exact congrArg (Prod.mk _) h
    · cases h
  | conditional condition thenBody elseBody =>
    simp only [check] at h
    split at h
    · cases h
    · next condition' u hc =>
      split at h
      · cases h
      · next hne =>
        split at h
        · cases h
        · next thenBody' u' hthen =>
          simp only [Prod.mk.injEq] at h
          obtain ⟨rfl, h⟩ := h
          obtain ⟨u', helse, rfl⟩ := Except.map_ok.mp h
          simp only [ungroupWith, check, checkCondition_ungroup hc, isEmpty_ungroupStmtsWith,
            if_neg hne, checkAll_ungroup hthen, checkAll_ungroup (Prod.ext rfl helse)]
          rfl
  | forEach name value body =>
    simp only [check] at h
    split at h
    · cases h
    · next u hv =>
      obtain ⟨t, ht, hi⟩ := Except.bind_ok.mp hv
      split at h
      · cases h
      · next hne =>
        simp only [Prod.mk.injEq] at h
        obtain ⟨rfl, h⟩ := h
        obtain ⟨u', hb, rfl⟩ := Except.map_ok.mp h
        simp only [ungroupWith, check, Expr.check_ungroup (Prod.ext rfl ht), Except.bind, hi,
          isEmpty_ungroupStmtsWith, if_neg hne, checkAll_ungroup (Prod.ext rfl hb)]
        rfl
  | whileLoop condition body =>
    simp only [check] at h
    split at h
    · cases h
    · next condition' u hc =>
      simp only [Prod.mk.injEq] at h
      obtain ⟨rfl, h⟩ := h
      obtain ⟨u', hb, rfl⟩ := Except.map_ok.mp h
      simp only [ungroupWith, check, checkCondition_ungroup hc,
        checkAll_ungroup (Prod.ext rfl hb)]
      rfl
  | returning value =>
    simp only [check] at h
    split at h
    · cases h
    · next expected hr =>
      simp only [Prod.mk.injEq] at h
      obtain ⟨rfl, h⟩ := h
      obtain ⟨t, ht, h⟩ := Except.bind_ok.mp h
      simp only [ungroupWith, check, hr, Expr.check_ungroup (Prod.ext rfl ht)]
      exact congrArg (Prod.mk _) h
  | hole g => cases h

/-- Statements that pass their check pass it ungrouped. -/
theorem checkAll_ungroup {c : Context} {ss ss' : List Stmt} (h : checkAll c ss = (ss', .ok ())) :
    checkAll c (ungroupStmtsWith Expr.ungroup ss)
      = (ungroupStmtsWith Expr.ungroup ss', .ok ()) := by
  match ss with
  | [] =>
    cases h
    rfl
  | s :: ss =>
    simp only [checkAll] at h
    split at h
    · cases h
    · next s' declared hs =>
      simp only [Prod.mk.injEq] at h
      obtain ⟨rfl, h⟩ := h
      simp only [ungroupStmtsWith, checkAll, check_ungroup hs, checkAll_ungroup (Prod.ext rfl h)]

end

end Stmt

/-! ### Fields and methods -/

variable {pass : Pass} {σ : Store}

theorem Pass.checkField_ungroup {f : Field} (h : (pass.checkField f σ).verdict = .ok ()) :
    pass.checkField f.ungroup σ = (pass.checkField f σ).map Field.ungroup := by
  simp only [checkField, Field.ungroup] at h ⊢
  rcases hd : checkDeclared (pass.context σ) f.name f.typeName f.value with ⟨value, _ | t⟩
  · rw [hd] at h
    cases h
  · rw [checkDeclared_ungroup hd]
    simp only [hd, Except.bind] at h ⊢
    split at h
    · rfl
    · cases h

theorem Pass.checkFieldPlace_ungroup {p : FieldPlace}
    (h : (pass.checkFieldPlace p σ).verdict = .ok ()) :
    pass.checkFieldPlace p.ungroup σ = (pass.checkFieldPlace p σ).map FieldPlace.ungroup := by
  cases p with
  | field f | declaration f =>
    have hf : pass.checkField f.ungroup σ = (pass.checkField f σ).map Field.ungroup :=
      Pass.checkField_ungroup h
    simp only [FieldPlace.ungroup, Pass.checkFieldPlace, hf]
    rfl
  | hole g => cases h

theorem Pass.checkMethodPlace_ungroup {p : MethodPlace}
    (h : (pass.checkMethodPlace p σ).verdict = .ok ()) :
    pass.checkMethodPlace (p.ungroupWith Expr.ungroup) σ
      = (pass.checkMethodPlace p σ).map (MethodPlace.ungroupWith Expr.ungroup) := by
  cases p with
  | method m =>
    have hm : pass.checkMethod (m.ungroupWith Expr.ungroup) σ
        = (pass.checkMethod m σ).map (Method.ungroupWith Expr.ungroup) :=
      Pass.checkMethod_changed (f := ungroupStmtsWith Expr.ungroup) Stmt.checkAll_ungroup h
    simp only [MethodPlace.ungroupWith, Pass.checkMethodPlace, hm]
    rfl
  | untyped m => cases h
  | hole g => cases h

/-! ### Sources -/

theorem MethodPlace.promise?_ungroupWith (t : Expr → Expr) (p : MethodPlace) :
    (p.ungroupWith t).promise? = p.promise? := by
  cases p with
  | method m | untyped m => exact congrArg Except.ok (m.entryPoint_congr rfl rfl rfl)
  | hole h => rfl

/-- **What passes the check passes it ungrouped**, and is annotated alike. -/
theorem Pass.check_ungroup {s : Source} (h : (pass.check s σ).verdict = .ok ()) :
    pass.check s.ungroup σ = (pass.check s σ).map Source.ungroup :=
  Pass.check_changed (fun _ _ hp => Pass.checkFieldPlace_ungroup hp)
    (fun _ _ hp => Pass.checkMethodPlace_ungroup hp) (MethodPlace.promise?_ungroupWith _) h

end Parlance
