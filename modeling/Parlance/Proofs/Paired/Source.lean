/-
Sources that are alike run alike.

The fields of two sources are evaluated and declared one by one, then the methods are declared,
and then the entry point is called: under a lawful pairing each step of the one goes together with
the same step of the other, and so does the whole.
-/
import Parlance.Proofs.Paired.Running

namespace Parlance

namespace Pairing

variable {w : Pairing} {p p' : Pass} {fuel : Nat}

namespace Lawful

variable (hw : w.Lawful)
include hw

theorem renames_same : w.Renames .same :=
  fun _ => hw.fault _

theorem at_outside (hp : w.passes p p') : w.At p p' .same [] [] :=
  ⟨hp, hw.renames_same, aligned_nil _⟩

theorem initialValue (hp : w.passes p p') {e e' : Option Expr}
    (h : Option.Rel (Expr.Alike w.code .same) e e') :
    w.Together w.Same (p.initialValue fuel e) (p'.initialValue fuel e') := by
  cases h with
  | none => exact together_pure ⟨rfl, hw.nil⟩
  | some h => exact (hw.alikeAt fuel).eval (hw.at_outside hp) h

theorem declareOutside (hp : w.passes p p') (name : Name) {v : Value} (hv : w.sort v) :
    w.Together (fun _ _ => True) (Eval.declare p [] name v) (Eval.declare p' [] name v) :=
  (hw.declare (hw.at_outside hp) hv name).mono fun _ _ _ => trivial

theorem declareField (hp : w.passes p p') {f f' : Field} (h : f.Alike w.code f') :
    w.Together (fun _ _ => True) (p.declareField fuel f) (p'.declareField fuel f') := by
  refine (hw.initialValue hp h.value).bind ?_
  rintro v _ ⟨rfl, hv⟩
  rw [h.name]
  exact (hw.declareOutside hp _ hv).bind fun _ _ _ => together_pure trivial

theorem declareStray (hp : w.passes p p') {s : Sketch}
    (value : ∀ part, s.part? "value" = some part →
      Option.Rel (Expr.Alike w.code .same) part.toExpr? part.toExpr?) :
    w.Together (fun _ _ => True) (p.declareStray fuel s) (p'.declareStray fuel s) := by
  unfold Pass.declareStray
  split
  · exact together_throw (hw.fault _)
  · exact together_throw (hw.fault _)
  · next part _ hpart =>
    refine (hw.initialValue hp (value part hpart)).bind ?_
    rintro v _ ⟨rfl, hv⟩
    split
    · exact together_throw (hw.fault _)
    · exact (hw.declareOutside hp _ hv).bind fun _ _ _ => together_pure trivial

theorem declareFieldPlace (hp : w.passes p p') {f f' : FieldPlace} (h : f.Alike w.code f') :
    w.Together (fun _ _ => True) (p.declareFieldPlace fuel f) (p'.declareFieldPlace fuel f') := by
  cases h with
  | field h => exact hw.declareField hp h
  | declaration h => exact hw.declareField hp h
  | stray value => exact hw.declareStray hp value
  | unlisted => exact together_throw (hw.fault _)

theorem declareMethodPlace (hp : w.passes p p') {m m' : MethodPlace} (h : m.Alike w.code m') :
    w.Together (fun _ _ => True) (p.declareMethodPlace m) (p'.declareMethodPlace m') := by
  have method {m m' : Method} {ν : Renaming} (hν : w.Renames ν) (h : m.Alike w.code ν m') :
      w.Together (fun _ _ => True) (p.declareMethod m) (p'.declareMethod m') := by
    have length : m'.parameters.length = m.parameters.length := by
      rw [h.parameters, List.length_map]
    unfold Pass.declareMethod
    simp only [length, h.name]
    refine (together_read fun σ τ hs =>
      hw.declareMethod _ _ hs hp hν h List.length_replicate).bind ?_
    rintro ⟨_, σ⟩ ⟨_, τ⟩ hs
    intro _ _ _
    exact .ok trivial (hw.report _ hs)
  cases h with
  | method hν h => exact method hν h
  | untyped hν h => exact method hν h
  | hole => exact together_throw (hw.fault _)

omit hw in
theorem forM_together {α : Type} {R : α → α → Prop} {f g : α → Eval Unit}
    (h : ∀ a b, R a b → w.Together (fun _ _ => True) (f a) (g b)) {as bs : List α}
    (hab : List.Forall₂ R as bs) :
    w.Together (fun _ _ => True) (as.forM f) (bs.forM g) := by
  induction hab with
  | nil => exact together_pure trivial
  | cons hab _ ih => exact (h _ _ hab).bind fun _ _ _ => ih

theorem declareSource (hp : w.passes p p') {s s' : Source} (h : s.Alike w.code s') :
    w.Together (fun _ _ => True) (p.declareSource fuel s) (p'.declareSource fuel s') := by
  unfold Pass.declareSource
  refine (forM_together (R := FieldPlace.Alike w.code)
    (fun _ _ h => hw.declareFieldPlace hp h) h.fields).bind fun _ _ _ => ?_
  exact forM_together (R := MethodPlace.Alike w.code)
    (fun _ _ h => hw.declareMethodPlace hp h) h.methods

theorem enter (hp : w.passes p p') : w.Together w.Same (p.enter fuel) (p'.enter fuel) := by
  refine (together_read fun σ τ hs => hw.scopeFunction "main" 0 hs hp).bind ?_
  intro r r' hr
  refine (together_modify fun _ _ => hw.report _).bind fun _ _ _ => ?_
  have called : w.Together w.Same (invoke fuel r []) (invoke fuel r' []) :=
    (hw.alikeAt fuel).invoke hr (List.forall_mem_nil _)
  refine called.bind ?_
  rintro v _ ⟨rfl, hv⟩
  refine (hw.lift (R := Eq) fun _ _ => rfl).bind ?_
  rintro t _ rfl
  refine (together_modify fun _ _ => hw.report _).bind fun _ _ _ => ?_
  exact together_pure ⟨rfl, hv⟩

/-- **Sources that are alike run alike** under a lawful pairing. -/
theorem evaluate (hp : w.passes p p') {s s' : Source} (h : s.Alike w.code s') :
    w.Together w.Same (p.evaluate fuel s) (p'.evaluate fuel s') :=
  (hw.declareSource hp h).bind fun _ _ _ => hw.enter hp

end Lawful

end Pairing

end Parlance
