/-
Trimmed code is checked as before.

A statement that passes its check passes it trimmed, and what the check makes of it is what it made
before, trimmed.  A list of statements is not empty once it is trimmed unless it was empty, and
what is left out of it could only have declared variables for what is left out as well.  The check
gives functions nothing to run, so the stores are the same.
-/
import Parlance.Proofs.Checking.Changed
import Parlance.Proofs.Syntax.Trim

namespace Parlance

/-! ### Statements -/

namespace Stmt

/-- The check makes no `RETURN`, and none into something else. -/
theorem isReturn_check (c : Context) (s : Stmt) : (s.check c).1.isReturn = s.isReturn := by
  cases s <;> simp only [check] <;> repeat' split
  all_goals rfl

mutual

/-- A statement that passes its check passes it trimmed. -/
theorem check_trim {c : Context} {s s' : Stmt} {declared : Option Variable}
    (h : s.check c = (s', .ok declared)) : s.trim.check c = (s'.trim, .ok declared) := by
  cases s with
  | conditional condition thenBody elseBody =>
    simp only [trim, check, isEmpty_trimStmts] at h ⊢
    split at h
    · cases h
    · split at h
      · cases h
      · next hthen =>
        split at h
        · cases h
        · next thenBody' _ ha =>
          rcases hb : checkAll (c.enter []) elseBody with ⟨elseBody', _ | _⟩
          · rw [hb] at h
            cases h
          · rw [hb] at h
            cases h
            simp only [if_neg hthen, checkAll_trimStmts ha, checkAll_trimStmts hb, trim]
            rfl
  | forEach name value body =>
    simp only [trim, check, isEmpty_trimStmts] at h ⊢
    split at h
    · cases h
    · split at h
      · cases h
      · next hbody =>
        rcases hb : checkAll
          (c.enter [⟨name, name, some Builtin.integer.type, .block c.blocks.length⟩]) body
          with ⟨body', _ | _⟩
        · rw [hb] at h
          cases h
        · rw [hb] at h
          cases h
          simp only [if_neg hbody, checkAll_trimStmts hb, trim]
          rfl
  | whileLoop condition body =>
    simp only [trim, check] at h ⊢
    split at h
    · cases h
    · rcases hb : checkAll (c.enter []) body with ⟨body', _ | _⟩
      · rw [hb] at h
        cases h
      · rw [hb] at h
        cases h
        simp only [checkAll_trimStmts hb, trim]
        rfl
  | _ =>
    -- There is nothing to trim inside of it, neither before the check nor after it.
    have plain {s : Stmt} (hs : (s.check c).1.trim = (s.check c).1)
        (h : s.check c = (s', .ok declared)) : s.check c = (s'.trim, .ok declared) := by
      rw [h] at hs
      rw [h, hs]
    rw [trim]
    refine plain ?_ h
    simp only [check]
    repeat' split
    all_goals rfl

/-- Statements that pass their check pass it trimmed. -/
theorem checkAll_trimStmts {c : Context} {ss ss' : List Stmt} (h : checkAll c ss = (ss', .ok ())) :
    checkAll c (trimStmts ss) = (trimStmts ss', .ok ()) := by
  match ss with
  | [] =>
    cases h
    simp only [trimStmts, checkAll]
  | s :: ss =>
    have hr := isReturn_check c s
    rcases hs : s.check c with ⟨s', _ | declared⟩ <;> simp only [checkAll, hs] at h
    · cases h
    rcases hss : checkAll (c.extend declared) ss with ⟨rest, _ | _⟩ <;> simp only [hss] at h
    · cases h
    cases h
    rw [hs] at hr
    cases hret : s.isReturn with
    | false =>
      rw [trimStmts_cons hret, trimStmts_cons (hr.trans hret), checkAll, check_trim hs]
      simp only [checkAll_trimStmts hss]
    | true =>
      cases s with
      | returning value =>
        cases s' with
        | returning value' =>
          simp only [trimStmts, checkAll, hs]
        | _ => cases hr
      | _ => cases hret

end

end Stmt

/-! ### Methods -/

variable {pass : Pass} {σ : Store}

theorem Pass.checkMethod_trim {m : Method} (h : (pass.checkMethod m σ).verdict = .ok ()) :
    pass.checkMethod m.trim σ = (pass.checkMethod m σ).map Method.trim :=
  Pass.checkMethod_changed (f := trimStmts) Stmt.checkAll_trimStmts h

theorem Pass.checkMethodPlace_trim {p : MethodPlace}
    (h : (pass.checkMethodPlace p σ).verdict = .ok ()) :
    pass.checkMethodPlace p.trim σ = (pass.checkMethodPlace p σ).map MethodPlace.trim := by
  cases p with
  | method m =>
    have hm : pass.checkMethod m.trim σ = (pass.checkMethod m σ).map Method.trim :=
      Pass.checkMethod_trim h
    simp only [MethodPlace.trim, Pass.checkMethodPlace, hm]
    rfl
  | untyped m => cases h
  | hole g => rfl

/-! ### Sources -/

theorem MethodPlace.promise?_trim (p : MethodPlace) : p.trim.promise? = p.promise? := by
  cases p with
  | method m | untyped m => exact congrArg Except.ok (m.entryPoint_congr rfl rfl rfl)
  | hole h => rfl

/-- **What passes the check passes it trimmed**, and is annotated alike. -/
theorem Pass.check_trim {s : Source} (h : (pass.check s σ).verdict = .ok ()) :
    pass.check s.trim σ = (pass.check s σ).map Source.trim := by
  have changed := Pass.check_changed (t := id) (u := MethodPlace.trim) (fun _ _ _ => rfl)
    (fun _ _ hp => Pass.checkMethodPlace_trim hp) MethodPlace.promise?_trim h
  simp only [List.map_id] at changed
  exact changed

end Parlance
