/-
A checked program from beginning to end.

A program that the check has accepted without a host is evaluated by a new pass, in any
store.  Both passes begin with `print` and nothing else, so the first setting is modelled;
from there the fields and the methods take it to the last one, in which the entry point is
found and called.  What the evaluation goes through on the way is proper in one of these
settings, and what it ends in is what the invariant says of every store it passes.
-/
import Parlance.Proofs.Kinds.Source

namespace Parlance

/-- A source that the check accepts, with nothing around it. -/
def Source.Accepted (s : Source) (σ : Store) : Prop :=
  (s.analyze Host.none σ).verdict = .ok ()

instance (s : Source) (σ : Store) : Decidable (s.Accepted σ) :=
  match h : (s.analyze Host.none σ).verdict with
  | .ok () => .isTrue h
  | .error _ => .isFalse fun h' => nomatch h.symm.trans h'

/-- The tree that the check of a source leaves behind, with nothing around it. -/
def Source.checked (s : Source) (σ : Store) : Source :=
  (s.analyze Host.none σ).tree

/-! ### The entry point -/

theorem InOrder.alone_methods {checker : Pass} {σ τ : Store} {ms ms' : List MethodPlace}
    (h : InOrder checker.MethodTyped σ ms ms' τ) (hσ : checker.Alone σ) :
    checker.Alone τ ∧ (σ.table checker.scope.top).Extends (τ.table checker.scope.top) ∧
      (τ.table checker.scope.top).slots = (σ.table checker.scope.top).slots := by
  refine h.preserves (P := fun υ => checker.Alone υ ∧
    (σ.table checker.scope.top).Extends (υ.table checker.scope.top) ∧
    (υ.table checker.scope.top).slots = (σ.table checker.scope.top).slots) ?_ ⟨hσ, .refl _, rfl⟩
  rintro υ p p' υ' hm ⟨hυ, hext, hslots⟩
  obtain ⟨m, f, -, ha⟩ := hm.adds
  obtain ⟨record, hstore⟩ := ha.store
  have htable : υ'.table checker.scope.top = (υ.table checker.scope.top).addRoutine ⟨f, none⟩ := by
    rw [hstore]
    exact Store.table_modifyTable_self hυ.top _
  refine ⟨ha.alone hυ, ?_, ?_⟩
  · rw [htable]
    exact hext.trans (Table.extends_addRoutine _ _)
  · rw [htable]
    exact hslots

/-- The entry point of a source that passed the check is in the table at the end: it takes
nothing and promises an Integer. -/
theorem Pass.SourceTyped.entryPoint_found {checker : Pass} {s tree : Source} {σ τ υ : Store}
    (h : checker.SourceTyped s tree σ τ υ) (hτ : checker.Alone τ) :
    ∃ f t, (υ.table checker.scope.top).routine? "main" 0 = some ⟨f, none⟩ ∧
      f.parameterTypes = [] ∧ f.returnType = some t ∧ t.name = Builtin.integer.name := by
  obtain ⟨p, hp, m, hm, hret⟩ := Source.checkEntryPoint_ok h.entryPoint
  obtain ⟨before, p', after, -, τ₁, τ₂, as₁, as₂, h₁, hR, h₂⟩ := h.methods.exists_of_mem hp
  have hτ₁ := (h₁.alone_methods hτ).1
  obtain ⟨m', f, rfl, ha⟩ := hR.adds
  have hext := (h₂.alone_methods (ha.alone hτ₁)).2.1
  obtain ⟨record, hstore⟩ := ha.store
  have htable : τ₂.table checker.scope.top = (τ₁.table checker.scope.top).addRoutine ⟨f, none⟩ := by
    rw [hstore]
    exact Store.table_modifyTable_self hτ₁.top _
  have hfound : (τ₂.table checker.scope.top).routine? f.name f.arity = some ⟨f, none⟩ := by
    rw [htable, Table.routine?_addRoutine, ha.free, if_pos ⟨rfl, rfl⟩, Option.none_or]
  obtain ⟨types, result, block, hl, hpt, hr, -, hres, -⟩ := ha.body
  have hname := ha.name
  have harity := ha.arity
  cases hR with
  | @intro m₀ _ _ _ _ _ _ _ _ _ _ _ _ =>
    simp only [MethodPlace.entryPoint?] at hm
    split at hm
    · next hmain =>
      cases hm
      have hmain : m.name = some ("main" : Text) ∧ m.parameters = [] := by
        simpa [Method.isEntryPoint] using hmain
      simp only [hmain.1, hmain.2, List.length_nil] at hname harity hl
      refine ⟨f, result, ?_, ?_, hr, ?_⟩
      · rw [← hname, ← harity]
        exact hext.routine? hfound
      · rw [hpt, List.length_eq_zero_iff.mp hl.symm, List.map_nil]
      · rw [hret] at hres
        exact Context.name_of_type hres
    · cases hm

/-! ### Settings of a run -/

namespace Setting

/-- The setting is one that the evaluation of the tree by that pass goes through: a store that
models it has just the variables of the first few fields. -/
structure Serves (w : Setting) (stream : Encoding) (lax : Bool) (tree : Source) (evaluator : Pass) :
    Prop where
  strictness : w.lax = lax
  stream : w.stream = stream
  pass : w.pass = evaluator
  fields : ∀ ρ, w.Models ρ → FieldsHold lax tree.fields evaluator.scope.top ρ

/-- The setting has an entry point that promises an Integer. -/
def HasMain (w : Setting) : Prop :=
  ∃ s t, w.table.routine? "main" 0 = some s ∧ s.function.parameterTypes = [] ∧
    s.function.returnType = some t ∧ t.name = Builtin.integer.name

end Setting

/-- Both passes begin with `print`, and with nothing else. -/
theorem Pass.Alone.models {checker evaluator : Pass} {σ ρ : Store} (hσ : checker.Alone σ)
    (stream : Encoding) (lax : Bool) (he : evaluator.scope.outer = [])
    (hc : σ.table checker.scope.top = ⟨[], [⟨printer checker.scope.top, none⟩]⟩)
    (htop : ρ.HasTable evaluator.scope.top) (hstream : ρ.encoding = stream)
    (hp : ρ.table evaluator.scope.top = ⟨[], [⟨printer evaluator.scope.top, some .print⟩]⟩) :
    (hσ.setting stream lax evaluator he).Models ρ := by
  refine ⟨htop, ?_, ?_, hstream⟩
  · show List.Forall₂ _ (σ.table checker.scope.top).slots (ρ.table evaluator.scope.top).slots
    rw [hc, hp]
    exact .nil
  · show List.Forall₂ _ (σ.table checker.scope.top).routines
      (ρ.table evaluator.scope.top).routines
    rw [hc, hp]
    exact .cons (.print rfl rfl rfl rfl) .nil

namespace Source

variable {s : Source} {σ : Store} {lax : Bool}

/-- The check of an accepted source, in the stores that the two phases of it leave. -/
theorem Accepted.typed (h : s.Accepted σ) :
    ∃ τ υ, (Host.none.checker σ).1.SourceTyped s (s.checked σ) (Host.none.checker σ).2 τ υ := by
  obtain ⟨τ, υ, -, ht, -⟩ := Pass.check_typed h
  exact ⟨τ, υ, ht⟩

variable (τ : Store) (fuel : Nat)

/-- Declaring all fields and methods of an accepted source leads to a setting with an entry
point. -/
theorem Accepted.declareSource_ends (h : s.Accepted σ) (hc : Careful lax (s.checked σ).walk) :
    Eval.Ends (FieldsHold lax (s.checked σ).fields (Host.none.evaluator τ).1.scope.top)
      (Expected τ.encoding lax) ((Host.none.evaluator τ).1.declareSource fuel (s.checked σ))
      (Host.none.evaluator τ).2 fun _ ρ =>
        ∃ w : Setting, w.Serves τ.encoding lax (s.checked σ) (Host.none.evaluator τ).1 ∧
          w.Models ρ ∧ w.HasMain := by
  obtain ⟨σ₁, σ₂, ht⟩ := h.typed
  rw [walk] at hc
  have hσ : (Host.none.checker σ).1.Alone (Host.none.checker σ).2 := σ.newPass_alone none
  have hnew := σ.newPass_spec none none none
  have hnew' := τ.newPass_spec none none (some .print)
  have hdone : List.Forall₂ FieldPlace.Binds []
      ((Host.none.checker σ).2.table (Host.none.checker σ).1.scope.top).slots :=
    (congrArg Table.slots hnew.table).symm ▸ .nil
  have hstream := (τ.stream_newPass none none (some .print)).2
  have hm := hσ.models τ.encoding lax hnew'.outer hnew.table hnew'.top hstream hnew'.table
  unfold Pass.declareSource
  refine Eval.ends_bind (ht.fields.fields_ends hσ hm hc.tail.left rfl hdone) ?_
  rintro _ ρ _ ⟨hσ₁, hm, hbinds⟩
  obtain ⟨ρ', hdecl, hσ₂, hm'⟩ := ht.methods.methods_declared hσ₁ hm hc.tail.right
  have hbinds' : List.Forall₂ FieldPlace.Binds (s.checked σ).fields
      (σ₂.table (Host.none.checker σ).1.scope.top).slots := by
    rw [(ht.methods.alone_methods hσ₁).2.2]
    exact hbinds
  obtain ⟨f, t, hf, hp, hr, hn⟩ := ht.entryPoint_found hσ₁
  unfold Eval.Ends
  rw [hdecl]
  refine ⟨hσ₂.setting τ.encoding lax _ hnew'.outer, ⟨rfl, rfl, rfl, ?_⟩, hm',
    ⟨_, t, hf, hp, hr, hn⟩⟩
  intro ρ hm
  exact hm.fieldsHold (List.append_nil _) hbinds'

/-- The call of the entry point, found in such a setting, and its result. -/
theorem enter_ends {stream : Encoding} {w : Setting} {tree : Source} {evaluator : Pass} {ρ : Store}
    (hw : w.Serves stream lax tree evaluator) (hm : w.Models ρ) (hmain : w.HasMain) :
    Eval.Ends (FieldsHold lax tree.fields evaluator.scope.top) (Expected stream lax)
      (evaluator.enter fuel) ρ fun v ρ' =>
        FieldsHold lax tree.fields evaluator.scope.top ρ' ∧
          ∃ t, t.name = Builtin.integer.name ∧ Holds lax (some t) v := by
  obtain ⟨s, t, hs, hp, hr, hn⟩ := hmain
  obtain ⟨rfl, rfl, rfl, hfields⟩ := hw
  obtain ⟨r, hr', hi⟩ := hm.routine? hs
  have hlookup := (Store.scopeFunction_alone ρ w.alone).mpr hr'
  have hargs : List.Forall₂ (Holds w.lax) s.function.parameterTypes [] := hp ▸ .nil
  unfold Pass.enter
  refine Eval.ends_bind_of_ok (Eval.read_ok hlookup) ?_
  refine Eval.ends_bind_of_ok (show Eval.report .entering ρ = .ok () (ρ.report .entering) from rfl)
    ?_
  refine Eval.Ends.mono (K := w.Models)
    (P := fun v ρ' => w.Models ρ' ∧ Holds w.lax s.function.returnType v) ?_ hfields
    fun v ρ' h => ⟨hfields ρ' h.1, t, hn, hr ▸ h.2⟩
  refine Eval.safe_bind ((w.soundAt fuel).invoke (hm.report _) hi hargs) ?_
  intro v ρ' _ hm' hv
  refine Eval.safe_bind (Eval.safe_lift hm' (Value.text_meets v)) ?_
  intro text ρ'' _ hm'' _
  refine Eval.safe_bind (Eval.safe_modify (hm''.report _)) ?_
  intro _ ρ''' _ hm''' _
  exact Eval.safe_pure hm''' hv

/-- **The evaluation of an accepted source ends with a value of type Integer, or stops for what
is to be expected.** However it ends, the fields declared by then hold values of their types. -/
theorem Accepted.evaluate_ends (h : s.Accepted σ) (hc : Careful lax (s.checked σ).walk) :
    Eval.Ends (FieldsHold lax (s.checked σ).fields (Host.none.evaluator τ).1.scope.top)
      (Expected τ.encoding lax) ((s.checked σ).evaluate Host.none fuel) τ fun v ρ =>
        FieldsHold lax (s.checked σ).fields (Host.none.evaluator τ).1.scope.top ρ ∧
          ∃ t, t.name = Builtin.integer.name ∧ Holds lax (some t) v := by
  show Eval.Ends _ _ ((Host.none.evaluator τ).1.declareSource fuel (s.checked σ) >>= fun _ =>
    (Host.none.evaluator τ).1.enter fuel) (Host.none.evaluator τ).2 _
  refine Eval.ends_bind (h.declareSource_ends τ fuel hc) ?_
  rintro _ ρ _ ⟨w, hw, hm, hmain⟩
  exact enter_ends fuel hw hm hmain

/-- An evaluation of an accepted source begins with proper moments. -/
theorem Accepted.begins_proper (h : s.Accepted σ) (hc : Careful lax (s.checked σ).walk)
    {m : Moment} (hb : (s.checked σ).Begins Host.none fuel τ m) :
    ∃ w : Setting,
      w.Serves τ.encoding lax (s.checked σ) (Host.none.evaluator τ).1 ∧ w.Proper m := by
  cases hb with
  | @main main ρ hd hm =>
    obtain ⟨w, hw, hmodels, s, t, hs, hp, -, -⟩ := (h.declareSource_ends τ fuel hc).ok hd
    obtain ⟨r, hr, hi⟩ := hmodels.routine? hs
    rw [← hw.pass] at hm ⊢
    cases hm.symm.trans ((Store.scopeFunction_alone ρ w.alone).mpr hr)
    exact ⟨w, hw.pass ▸ hw, rfl, .nil, hmodels.report _, .invocation hi (hp ▸ .nil)⟩
  | @field before after p e ρ hs he hb =>
    obtain ⟨σ₁, σ₂, ht⟩ := h.typed
    rw [walk, hs, List.flatMap_append, List.flatMap_cons] at hc
    obtain ⟨τ₁, τ₂, as₁, a, as₂, h₁, hp, -⟩ := ht.fields.split hs
    have hσ : (Host.none.checker σ).1.Alone (Host.none.checker σ).2 := σ.newPass_alone none
    have hnew := σ.newPass_spec none none none
    have hnew' := τ.newPass_spec none none (some .print)
    have hdone : List.Forall₂ FieldPlace.Binds []
        ((Host.none.checker σ).2.table (Host.none.checker σ).1.scope.top).slots :=
      (congrArg Table.slots hnew.table).symm ▸ .nil
    have hstream := (τ.stream_newPass none none (some .print)).2
    have hm := hσ.models τ.encoding lax hnew'.outer hnew.table hnew'.top hstream hnew'.table
    obtain ⟨hτ₁, hm', hbinds⟩ := (h₁.fields_ends hσ hm hc.tail.left.left rfl hdone).ok hb
    obtain ⟨v, ha⟩ := hp.adds
    obtain ⟨f, hf, -, -, hd⟩ := ha.bound
    have hinit : p.initial? = f.value := by rw [FieldPlace.initial?, hf, Option.bind_some]
    have hcare := hc.tail.left.right.left
    rw [FieldPlace.walk_of_field? hf, ← hinit, he] at hcare
    rw [← hinit, he] at hd
    refine ⟨hτ₁.setting τ.encoding lax _ hnew'.outer, ⟨rfl, rfl, rfl, ?_⟩, rfl, .nil, hm', ?_⟩
    · intro ρ hm
      exact hm.fieldsHold hs.symm hbinds
    · obtain ⟨t, htyped⟩ := hd.value_typed
      exact .expr (hτ₁.at hm').covers rfl htyped hcare.tail

/-- **Whatever the evaluation of an accepted source goes through is proper.** -/
theorem Accepted.reaches_proper (h : s.Accepted σ) (hc : Careful lax (s.checked σ).walk)
    {m : Moment} (hm : (s.checked σ).Reaches Host.none fuel τ m) :
    ∃ w : Setting, w.Serves τ.encoding lax (s.checked σ) (Host.none.evaluator τ).1 ∧ w.Proper m :=
  hm.of_steps (fun _ hb => h.begins_proper τ fuel hc hb) fun hl ⟨w, hw, hp⟩ => ⟨w, hw, hp.leads hl⟩

end Source

end Parlance
