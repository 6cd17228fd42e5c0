/-
What is changed before a check is changed after it.

A change of the code that passes through the checks of lists of statements, in that they make of
changed statements what they make of the statements, changed, passes through those of methods: the
check of a method reads nothing else of its body.  A change of fields and methods that passes
through their checks passes through the one of a source, since a check leaves the same store behind
for the next one.  All this is said of what passes its check: where there is a fault, it may well be
another one after the change.
-/
import Parlance.Program
import Parlance.Proofs.Checking.Entry

namespace Parlance

variable {pass : Pass} {σ : Store}

/-- What is changed of the statements of a body is changed of the body that the check leaves. -/
theorem Pass.checkMethod_changed {f : List Stmt → List Stmt}
    (hf : ∀ {c ss ss'}, Stmt.checkAll c ss = (ss', .ok ()) →
      Stmt.checkAll c (f ss) = (f ss', .ok ()))
    {m : Method} (h : (pass.checkMethod m σ).verdict = .ok ()) :
    pass.checkMethod { m with body := f m.body } σ
      = (pass.checkMethod m σ).map fun m => { m with body := f m.body } := by
  have body {c : Context} {types : List Ty} {result : Ty} {ss : List Stmt}
      (hb : m.checkBody c types result = (ss, .ok ())) :
      { m with body := f m.body }.checkBody c types result = (f ss, .ok ()) := by
    unfold Method.checkBody at hb ⊢
    simp only
    split at hb
    · cases hb
    · exact hf hb
  have signature (c : Context) : { m with body := f m.body }.signature c = m.signature c := rfl
  simp only [Pass.checkMethod, signature] at h ⊢
  cases hsignature : m.signature (pass.context σ) with
  | error f => simp [hsignature] at h
  | ok found =>
    obtain ⟨types, result⟩ := found
    simp only [hsignature] at h ⊢
    cases hdeclared : σ.declareFunction pass.scope.top m.name (types.map some) (some result)
        none none with
    | error f => simp [hdeclared] at h
    | ok declared =>
      obtain ⟨function, τ⟩ := declared
      simp only [hdeclared] at h ⊢
      rcases hb : m.checkBody (pass.context (τ.report (.checkedMethod m.name types.length)))
        types result with ⟨ss, verdict⟩
      rw [hb] at h
      cases h
      rw [body hb]
      rfl

/-- What is changed of each tree before its check is changed of each after the checks. -/
theorem checkInOrder_changed {α : Type} {check : α → Store → Checked α} {t : α → α}
    (ht : ∀ a σ, (check a σ).verdict = .ok () → check (t a) σ = (check a σ).map t)
    (as : List α) (h : (checkInOrder check as σ).verdict = .ok ()) :
    checkInOrder check (as.map t) σ = (checkInOrder check as σ).map (List.map t) := by
  induction as generalizing σ with
  | nil => rfl
  | cons a as ih =>
    have ha := ht a σ
    simp only [List.map_cons, checkInOrder] at h ⊢
    rcases hc : check a σ with ⟨a', verdict, τ⟩
    rw [hc] at ha h
    cases verdict with
    | error f => cases h
    | ok u =>
      rw [ha rfl]
      simp only [Checked.map, ih h, List.map_cons]

/-- What is changed of fields and methods, but for what entry points promise, is changed of the
source that the check leaves. -/
theorem Pass.check_changed {t : FieldPlace → FieldPlace} {u : MethodPlace → MethodPlace}
    (ht : ∀ p σ, (pass.checkFieldPlace p σ).verdict = .ok () →
      pass.checkFieldPlace (t p) σ = (pass.checkFieldPlace p σ).map t)
    (hu : ∀ p σ, (pass.checkMethodPlace p σ).verdict = .ok () →
      pass.checkMethodPlace (u p) σ = (pass.checkMethodPlace p σ).map u)
    (promise : ∀ p, (u p).promise? = p.promise?) {s : Source}
    (h : (pass.check s σ).verdict = .ok ()) :
    pass.check ⟨s.fields.map t, s.methods.map u⟩ σ
      = (pass.check s σ).map fun s => ⟨s.fields.map t, s.methods.map u⟩ := by
  have entry : Source.checkEntryPoint ⟨s.fields.map t, s.methods.map u⟩ = s.checkEntryPoint :=
    Source.checkEntryPoint_congr <| (List.map_map).trans <| List.map_congr_left fun p _ => promise p
  simp only [Pass.check, entry] at h ⊢
  cases hentry : s.checkEntryPoint with
  | error f => simp [hentry] at h
  | ok _ =>
    simp only [hentry] at h ⊢
    have fields : (checkInOrder pass.checkFieldPlace s.fields σ).verdict = .ok () → _ :=
      checkInOrder_changed ht s.fields
    rcases hfields : checkInOrder pass.checkFieldPlace s.fields σ with ⟨ps, verdict, τ⟩
    rw [hfields] at h fields
    cases verdict with
    | error f => cases h
    | ok _ =>
      rw [fields rfl]
      simp only [Checked.map] at h ⊢
      have methods : (checkInOrder pass.checkMethodPlace s.methods τ).verdict = .ok () → _ :=
        checkInOrder_changed hu s.methods
      rcases hmethods : checkInOrder pass.checkMethodPlace s.methods τ with ⟨qs, verdict, υ⟩
      rw [hmethods] at h methods
      cases verdict with
      | error f => cases h
      | ok _ =>
        rw [methods rfl]
        simp only [Checked.map, List.length_map]

end Parlance
