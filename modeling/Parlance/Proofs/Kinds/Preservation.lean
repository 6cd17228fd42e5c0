/-
Kinds are preserved up to `Nil`.

The check promises a type for every expression and every variable.  An accepted program keeps
these promises as far as a value is not `Nil`: a variable that was declared without a value
holds `Nil`, a method that ends without a `RETURN` answers it, and from there it goes
wherever a value goes.  This is the lax reading of `Holds`, and what remains to be done is to
read it off the moments of a run.
-/
import Parlance.Proofs.Kinds.Program

namespace Parlance

namespace Source

/-- What a program run from the beginning comes to, once its evaluation has: an integer, or the
refusal of the `Nil` that `main` has answered. -/
theorem Accepted.run_of_evaluate {s : Source} {σ τ : Store} {fuel : Nat} {v : Value}
    (h : s.Accepted σ)
    (hv : (s.checked σ).evaluate Host.none fuel (s.analyze Host.none σ).store = .ok v τ) :
    s.run Host.none fuel σ = exitValue v τ := by
  show (Eval.lift (s.analyze Host.none σ).verdict >>= fun _ =>
    (s.checked σ).evaluate Host.none fuel >>= exitValue) (s.analyze Host.none σ).store = _
  rw [h]
  exact Eval.bind_apply hv

theorem exitValue_cases {v : Value} {τ : Store} (h : v = .nil ∨ ∃ n, v = .integer n) :
    (∃ n, exitValue v τ = .ok n τ) ∨
      ∃ f, exitValue v τ = .error (.fault f) τ ∧
        f.report = .ok ⟨.evaluation, "RuntimeTypeError", "main/0 returned Nil, not Integer"⟩ := by
  rcases h with rfl | ⟨n, rfl⟩
  · exact .inr ⟨.run (.mainResult Builtin.nil.name), rfl, rfl⟩
  · exact .inl ⟨n, rfl⟩

end Source

theorem Holds.nil_or_admits {t : Option Ty} {v : Value} (h : Holds true t v) :
    ∃ s, t = some s ∧ (v = .nil ∨ s.admits v = true) := by
  obtain ⟨s, _, hs, _, hv⟩ := h
  exact ⟨s, hs, hv.symm.imp_left And.right⟩

/-- The variable has a type, and the value is `Nil` or of a kind that the type takes. -/
def Variable.Keeps (v : Variable) (x : Value) : Prop :=
  ∃ t, v.type = some t ∧ (x = .nil ∨ t.admits x = true)

/-- At that moment every variable of the running method keeps to the type that the node which
made it is annotated with, and so does every variable of the evaluator's own table, these being
the variables of the first few fields.  What a method that waits for a call has declared stays as
it was at the moment of the call, since only its own statements write it. -/
structure Moment.KeepsKinds (m : Moment) (tree : Source) (evaluator : Pass) : Prop where
  locals : List.Forall₂ (List.Forall₂ fun v b => b.1 = v.name ∧ v.Keeps b.2)
    m.activation.blocks m.activation.locals
  fields : ∃ declared, declared <+: tree.fields ∧
    List.Forall₂ (fun p s => ∃ f v, p.field? = some f ∧ f.bound = some v ∧
      s.var.name = v.name ∧ v.Keeps s.value)
      declared (m.store.table evaluator.scope.top).slots

/-- **Kinds are preserved up to `Nil`.** In every evaluation of an accepted source, of any length
and begun in any store, an expression that finishes does so with `Nil` or with a value of the type
it is annotated with, and every variable keeps at every moment to the type that the node which made
it is annotated with. So if there is a result, it is an Integer or `Nil`, and running the source
answers an Integer or refuses the `Nil`. -/
theorem Source.Accepted.preserves_kinds {s : Source} {σ : Store} (h : s.Accepted σ) (τ : Store)
    (fuel : Nat) :
    (∀ e v, (s.checked σ).Yields Host.none fuel τ e v →
      ∃ t, e.type? = some t ∧ (v = .nil ∨ t.admits v = true)) ∧
    (∀ m, (s.checked σ).Reaches Host.none fuel τ m →
      m.KeepsKinds (s.checked σ) (Host.none.evaluator τ).1) ∧
    (∀ v τ', (s.checked σ).evaluate Host.none fuel τ = .ok v τ' →
      v = .nil ∨ ∃ n, v = .integer n) ∧
    (∀ v τ', (s.checked σ).evaluate Host.none fuel (s.analyze Host.none σ).store = .ok v τ' →
      (∃ n, s.run Host.none fuel σ = .ok n τ') ∨
      ∃ f, s.run Host.none fuel σ = .error (.fault f) τ' ∧
        f.report = .ok ⟨.evaluation, "RuntimeTypeError", "main/0 returned Nil, not Integer"⟩) := by
  have lax : Careful true (s.checked σ).walk := .inl rfl
  have result (τ : Store) {v : Value} {τ' : Store}
      (hv : (s.checked σ).evaluate Host.none fuel τ = .ok v τ') :
      v = .nil ∨ ∃ n, v = .integer n := by
    obtain ⟨-, t, ht, hh⟩ := (h.evaluate_ends τ fuel lax).ok hv
    exact (hh.builtin ht (by decide) (by decide)).symm.imp And.right Value.eq_integer
  refine ⟨?_, ?_, fun v τ' hv => result τ hv, ?_⟩
  · intro e v hy
    obtain ⟨m, τ', hm, ht, he⟩ := hy
    obtain ⟨w, hw, hp⟩ := h.reaches_proper τ fuel lax hm
    exact (hw.strictness ▸ hp.yields ht he).nil_or_admits
  · intro m hm
    obtain ⟨w, hw, hp⟩ := h.reaches_proper τ fuel lax hm
    obtain ⟨declared, hpre, hfields⟩ := hw.fields _ hp.models
    refine ⟨?_, declared, hpre, hfields.imp ?_⟩
    · have hfit := hw.strictness ▸ hp.fit
      exact hfit.imp fun _ _ hframe => hframe.imp fun _ _ hv => ⟨hv.name, hv.value.nil_or_admits⟩
    · rintro p slot ⟨f, v, hf, hb, hn, hv⟩
      exact ⟨f, v, hf, hb, hn, hv.nil_or_admits⟩
  · intro v τ' hv
    rw [h.run_of_evaluate hv]
    exact exitValue_cases (result _ hv)

/-- A source that counts down to a field without a value, and answers that. -/
def Source.unset : Source where
  fields := [.field ⟨"total", some "Integer", none, none⟩]
  methods :=
    [.method ⟨"last", ["n"], [some "Integer"], some "Integer",
      [.conditional (.binary "==" (.access "n" none none) (.literal (.integer 0) none) none)
        [.returning (.access "total" none none)] [],
       .returning (.call "last"
        [.binary "-" (.access "n" none none) (.literal (.integer 1) none) none] none none)], none⟩,
     .method ⟨"main", [], [], some "Integer",
      [.returning (.call "last" [.literal (.integer 2) none] none none)], none⟩]

theorem Source.preserves_kinds_unset :
    unset.Accepted .initial ∧
    (∀ m, (unset.checked .initial).Reaches Host.none 40 .initial m →
      m.KeepsKinds (unset.checked .initial) (Host.none.evaluator .initial).1) ∧
    ∃ τ, (unset.checked .initial).evaluate Host.none 40 (unset.analyze Host.none .initial).store
        = .ok .nil τ ∧
      ((∃ n, unset.run Host.none 40 .initial = .ok n τ) ∨
      ∃ f, unset.run Host.none 40 .initial = .error (.fault f) τ ∧
        f.report = .ok ⟨.evaluation, "RuntimeTypeError",
          "main/0 returned Nil, not Integer"⟩) := by
  have h : unset.Accepted .initial := by decide +kernel
  obtain ⟨τ, hτ⟩ := Eval.exists_of_answer? (a := Value.nil)
    (σ := (unset.analyze Host.none .initial).store)
    (x := (unset.checked .initial).evaluate Host.none 40) (by decide +kernel)
  have hk := Accepted.preserves_kinds h .initial 40
  exact ⟨h, hk.2.1, τ, hτ, hk.2.2.2 _ _ hτ⟩

end Parlance
