/-
Code that is alike runs alike.

Under a lawful pairing, code that is alike, run in passes that correspond and in frames that are
aligned, goes together: expressions have the same value, and statements end with frames that are
aligned again.  The same is said of each function of the evaluator, and all of them are proved
together by induction on the fuel, of which both runs have as much.
-/
import Parlance.Proofs.Operators.Hostless
import Parlance.Proofs.Paired.Pairing

namespace Parlance

namespace Pairing

variable (w : Pairing)

/-- Where corresponding code runs: in passes that correspond, and aligned frames. -/
structure At (p p' : Pass) (ν : Renaming) (ls ls' : Locals) : Prop where
  passes : w.passes p p'
  renames : w.Renames ν
  aligned : Aligned w.sort ν ls ls'

/-- What corresponding statements come to, begun with so many frames. -/
inductive Outcomes (ν : Renaming) (count : Nat) : Outcome → Outcome → Prop
  | completed {ls ls' : Locals} (h : Aligned w.sort ν ls ls') (length : ls.length = count) :
      Outcomes ν count (.completed ls) (.completed ls')
  | returned {v : Value} (h : w.sort v) : Outcomes ν count (.returned v) (.returned v)

/-- With so much fuel, code that is alike goes together. -/
structure AlikeAt (n : Nat) : Prop where
  eval : ∀ {p p' ν ls ls' e e'}, w.At p p' ν ls ls' → e.Alike w.code ν e' →
    w.Together w.Same (eval p ls n e) (eval p' ls' n e')
  evalAll : ∀ {p p' ν ls ls' es es'}, w.At p p' ν ls ls' →
    List.Forall₂ (Expr.Alike w.code ν) es es' →
    w.Together w.SameAll (evalAll p ls n es) (evalAll p' ls' n es')
  invoke : ∀ {r r' vs}, w.Routines vs.length r r' → (∀ v ∈ vs, w.sort v) →
    w.Together w.Same (invoke n r vs) (invoke n r' vs)
  exec : ∀ {p p' ν ls ls' s s'}, w.At p p' ν ls ls' → s.Alike w.code ν s' →
    w.Together (w.Outcomes ν ls.length) (exec p n ls s) (exec p' n ls' s')
  execAll : ∀ {p p' ν ls ls' ss ss'}, w.At p p' ν ls ls' →
    List.Forall₂ (Stmt.Alike w.code ν) ss ss' →
    w.Together (w.Outcomes ν ls.length) (execAll p n ls ss) (execAll p' n ls' ss')
  block : ∀ {p p' ν ls ls' f ss ss'}, w.At p p' ν ls ls' → (∀ b ∈ f, w.sort b.2) →
    List.Forall₂ (Stmt.Alike w.code ν) ss ss' →
    w.Together (w.Outcomes ν ls.length) (block p n ls f ss) (block p' n ls' (ν.frame f) ss')
  iterate : ∀ {p p' ν ls ls' name items ss ss'}, w.At p p' ν ls ls' →
    List.Forall₂ (Stmt.Alike w.code ν) ss ss' →
    w.Together (w.Outcomes ν ls.length) (iterate p n ls name items ss)
      (iterate p' n ls' (ν.name name) items ss')
  loop : ∀ {p p' ν ls ls' e e' ss ss'}, w.At p p' ν ls ls' → e.Alike w.code ν e' →
    List.Forall₂ (Stmt.Alike w.code ν) ss ss' →
    w.Together (w.Outcomes ν ls.length) (loop p n ls e ss) (loop p' n ls' e' ss')

variable {w} {n : Nat}

theorem alikeAt_zero : w.AlikeAt 0 := by
  refine ⟨?_, ?_, ?_, ?_, ?_, ?_, ?_, ?_⟩
  · intros
    rw [Parlance.eval, Parlance.eval]
    exact together_outOfFuel
  · intros
    rw [Parlance.evalAll, Parlance.evalAll]
    exact together_outOfFuel
  · intros
    rw [Parlance.invoke, Parlance.invoke]
    exact together_outOfFuel
  · intros
    rw [Parlance.exec, Parlance.exec]
    exact together_outOfFuel
  · intros
    rw [Parlance.execAll, Parlance.execAll]
    exact together_outOfFuel
  · intros
    rw [Parlance.block, Parlance.block]
    exact together_outOfFuel
  · intros
    rw [Parlance.iterate, Parlance.iterate]
    exact together_outOfFuel
  · intros
    rw [Parlance.loop, Parlance.loop]
    exact together_outOfFuel

/-! ### Declarations -/

theorem frame_declare_lifts {ν : Renaming} (hν : w.Renames ν) (f : Frame) (name : Name)
    (v : Value) : w.Lifts (fun g g' => g = f ++ [(name, v)] ∧ g' = ν.frame g)
      ((f.declare name v).mapError .binding)
      ((Frame.declare (ν.frame f) (ν.name name) v).mapError .binding) := by
  unfold Frame.declare
  rw [Renaming.frame_get?]
  cases Frame.get? f name with
  | some _ => exact .fault (hν name)
  | none => exact .ok ⟨rfl, by simp [Renaming.frame]⟩

theorem declareAll_lifts {ν : Renaming} (hν : w.Renames ν) (f : Frame) (ps : List Name)
    (vs : List Value) : w.Lifts (fun g g' => g = f ++ ps.zip vs ∧ g' = ν.frame g)
      ((f.declareAll (ps.zip vs)).mapError .binding)
      ((Frame.declareAll (ν.frame f) ((ps.map ν.name).zip vs)).mapError .binding) := by
  induction ps generalizing f vs with
  | nil => exact .ok ⟨by simp, rfl⟩
  | cons name ps ih =>
    cases vs with
    | nil => exact .ok ⟨by simp, rfl⟩
    | cons v vs =>
      have head := frame_declare_lifts hν f name v
      simp only [List.map_cons, List.zip_cons_cons, Frame.declareAll]
      cases hf : f.declare name v with
      | error c =>
        rw [hf] at head
        cases hf' : Frame.declare (ν.frame f) (ν.name name) v with
        | error c' =>
          rw [hf'] at head
          cases head with
          | fault h => exact .fault h
        | ok g' =>
          rw [hf'] at head
          cases head
      | ok g =>
        rw [hf] at head
        cases hf' : Frame.declare (ν.frame f) (ν.name name) v with
        | error c' =>
          rw [hf'] at head
          cases head
        | ok g' =>
          rw [hf'] at head
          cases head with
          | ok h =>
            obtain ⟨rfl, rfl⟩ := h
            simpa [List.append_assoc] using ih (f ++ [(name, v)]) vs

/-- A variable is declared in the innermost frame, or in the scope's own table. -/
theorem Lawful.declare (hw : w.Lawful) {p p' : Pass} {ν : Renaming} {ls ls' : Locals} {v : Value}
    (h : w.At p p' ν ls ls') (hv : w.sort v) (name : Name) :
    w.Together (fun l l' => Aligned w.sort ν l l' ∧ l.length = ls.length)
      (Eval.declare p ls name v) (Eval.declare p' ls' (ν.name name) v) := by
  have renamed := h.aligned.renamed
  cases ls with
  | nil =>
    subst renamed
    rw [h.aligned.outside rfl name]
    simp only [Eval.declare, Renaming.locals, List.map_nil]
    refine (together_read fun σ τ hs => hw.declareVariable name hs h.passes hv).bind ?_
    rintro ⟨_, σ⟩ ⟨_, τ⟩ hs
    intro _ _ _
    exact .ok ⟨h.aligned, rfl⟩ hs
  | cons f outer =>
    subst renamed
    simp only [Eval.declare, Renaming.locals, List.map_cons]
    refine (together_lift (frame_declare_lifts h.renames f name v)).bind ?_
    rintro _ _ ⟨rfl, rfl⟩
    exact together_pure ⟨h.aligned.declare hv, rfl⟩

section Succ

variable (hw : w.Lawful) (ih : w.AlikeAt n) {p p' : Pass} {ν : Renaming} {ls ls' : Locals}
include hw ih

/-! ### Expressions -/

theorem eval_alike {e e' : Expr} (h : w.At p p' ν ls ls') (he : e.Alike w.code ν e') :
    w.Together w.Same (Parlance.eval p ls (n + 1) e) (Parlance.eval p' ls' (n + 1) e') := by
  cases he with
  | literal hv =>
    rw [Parlance.eval, Parlance.eval]
    exact together_pure ⟨rfl, hv⟩
  | group he =>
    rw [Parlance.eval, Parlance.eval]
    exact ih.eval h he
  | @binary op _ _ _ _ _ _ hl hr =>
    rw [Parlance.eval, Parlance.eval]
    refine (ih.eval h hl).bind ?_
    rintro left _ ⟨rfl, hleft⟩
    refine (hw.lift (R := Eq) fun _ _ => rfl).bind ?_
    rintro settled _ rfl
    cases settled with
    | some b => exact together_pure ⟨rfl, hw.boolean b⟩
    | none =>
      refine (ih.eval h hr).bind ?_
      rintro right _ ⟨rfl, hright⟩
      exact hw.lift fun v hv => ⟨rfl, hw.plain v (binaryApply_hostless hv)⟩
  | @access name _ _ _ _ hn =>
    rw [Parlance.eval, Parlance.eval]
    simp only [h.aligned.get?_eq]
    cases hv : ls.get? name with
    | some v => exact together_pure ⟨rfl, h.aligned.sort_of_get? hv⟩
    | none =>
      -- No frame has the name, so it is none of the method's own and is looked up as it is.
      rw [h.aligned.name_eq hn hv]
      refine (together_read fun σ τ hs => hw.scopeVariable name hs h.passes).bind ?_
      intro s s' hs
      exact together_pure ⟨hs.value, hs.sort⟩
  | @member _ _ name _ _ _ _ he =>
    rw [Parlance.eval, Parlance.eval]
    refine (ih.eval h he).bind ?_
    rintro owner _ ⟨rfl, howner⟩
    rw [read_read, read_read]
    refine (together_read fun σ τ hs => hw.memberVariable name hs h.passes howner).bind ?_
    intro s s' hs
    exact together_pure ⟨hs.value, hs.sort⟩
  | @call name _ _ _ _ _ _ has =>
    rw [Parlance.eval, Parlance.eval]
    refine (ih.evalAll h has).bind ?_
    rintro vs _ ⟨rfl, hvs⟩
    refine (together_read fun σ τ hs => hw.scopeFunction name vs.length hs h.passes).bind ?_
    intro r r' hr
    exact ih.invoke hr hvs
  | @memberCall _ _ name _ _ _ _ _ _ he has =>
    rw [Parlance.eval, Parlance.eval]
    refine (ih.eval h he).bind ?_
    rintro owner _ ⟨rfl, howner⟩
    refine (ih.evalAll h has).bind ?_
    rintro vs _ ⟨rfl, hvs⟩
    rw [read_read, read_read]
    refine (together_read fun σ τ hs =>
      hw.memberFunction name (vs.length + 1) hs h.passes howner).bind ?_
    intro r r' hr
    exact ih.invoke hr (List.forall_mem_cons.mpr ⟨howner, hvs⟩)
  | hole =>
    rw [Parlance.eval, Parlance.eval]
    exact together_throw (hw.fault _)

omit hw in
theorem evalAll_alike {es es' : List Expr} (h : w.At p p' ν ls ls')
    (hes : List.Forall₂ (Expr.Alike w.code ν) es es') :
    w.Together w.SameAll (Parlance.evalAll p ls (n + 1) es)
      (Parlance.evalAll p' ls' (n + 1) es') := by
  cases hes with
  | nil =>
    rw [Parlance.evalAll, Parlance.evalAll]
    exact together_pure ⟨rfl, List.forall_mem_nil _⟩
  | cons he hes =>
    rw [Parlance.evalAll, Parlance.evalAll]
    refine (ih.eval h he).bind ?_
    rintro v _ ⟨rfl, hv⟩
    refine (ih.evalAll h hes).bind ?_
    rintro vs _ ⟨rfl, hvs⟩
    exact together_pure ⟨rfl, List.forall_mem_cons.mpr ⟨hv, hvs⟩⟩

/-! ### Calls -/

/-- A function of the host, or one that writes, given the same arguments. -/
theorem invoke_alike {r r' : Routine} {vs : List Value} (hr : w.Routines vs.length r r')
    (hvs : ∀ v ∈ vs, w.sort v) :
    w.Together w.Same (Parlance.invoke (n + 1) r vs) (Parlance.invoke (n + 1) r' vs) := by
  obtain ⟨f, i⟩ := r
  obtain ⟨f', i'⟩ := r'
  obtain ⟨hname, himplements⟩ := hr
  simp only at hname himplements
  cases himplements with
  | none =>
    simp only [Parlance.invoke, hname]
    exact together_throw (hw.fault _)
  | print =>
    simp only [Parlance.invoke]
    refine (hw.lift (R := Eq) fun _ _ => rfl).bind ?_
    rintro v _ rfl
    refine (hw.lift (R := Eq) fun _ _ => rfl).bind ?_
    rintro t _ rfl
    refine (hw.write _).bind ?_
    rintro _ _ _
    exact together_pure ⟨rfl, hw.nil⟩
  | @host action traced hhost =>
    simp only [Parlance.invoke, hname]
    have act : w.Together w.Same (Eval.host action vs) (Eval.host action vs) :=
      hw.host action hhost hvs
    cases traced with
    | false => exact act
    | true =>
      refine (hw.lift (R := Eq) fun _ _ => rfl).bind ?_
      rintro t _ rfl
      exact (hw.write _).bind fun _ _ _ => act
  | @method m m' q q' ν passes renames parameters own body =>
    simp only [Parlance.invoke, parameters]
    refine (together_lift (declareAll_lifts renames [] m.parameters vs)).bind ?_
    rintro _ _ ⟨rfl, rfl⟩
    refine (ih.execAll ⟨passes, renames, .parameters hvs own⟩ body).bind ?_
    intro o o' ho
    cases ho with
    | completed _ _ => exact together_pure ⟨rfl, hw.nil⟩
    | returned hv => exact together_pure ⟨rfl, hv⟩

/-! ### Statements -/

theorem exec_alike {s s' : Stmt} (h : w.At p p' ν ls ls') (hs : s.Alike w.code ν s') :
    w.Together (w.Outcomes ν ls.length) (Parlance.exec p (n + 1) ls s)
      (Parlance.exec p' (n + 1) ls' s') := by
  cases hs with
  | expression he =>
    rw [Parlance.exec, Parlance.exec]
    refine (ih.eval h he).bind fun _ _ _ => ?_
    exact together_pure (.completed h.aligned rfl)
  | @declaration name _ _ _ _ _ _ hvalue =>
    have declared {v : Value} (hv : w.sort v) :=
      (hw.declare h hv name).bind fun l l' (hl : Aligned w.sort ν l l' ∧ l.length = ls.length) =>
        together_pure (w := w) (Outcomes.completed hl.1 hl.2)
    cases hvalue with
    | none =>
      simp only [Parlance.exec]
      exact declared hw.nil
    | some he =>
      simp only [Parlance.exec]
      refine (ih.eval h he).bind ?_
      rintro v _ ⟨rfl, hv⟩
      exact declared hv
  | @assignment target _ _ _ ht hv =>
    cases ht with
    | @access name _ _ _ _ hn =>
      simp only [Parlance.exec, h.aligned.get?_eq]
      cases hget : ls.get? name with
      | some old =>
        refine (ih.eval h hv).bind ?_
        rintro v _ ⟨rfl, hv⟩
        exact together_pure (.completed (h.aligned.set hv) (Locals.length_set ls name v))
      | none =>
        rw [h.aligned.name_eq hn hget]
        refine (together_read fun σ τ hs => hw.scopeVariable name hs h.passes).bind ?_
        intro s s' hs
        refine (ih.eval h hv).bind ?_
        rintro v _ ⟨rfl, hv⟩
        refine (together_modify fun σ τ hστ => hw.setValue hστ hs.var hv).bind fun _ _ _ => ?_
        exact together_pure (.completed h.aligned rfl)
    | @member _ _ name _ _ _ _ he =>
      simp only [Parlance.exec]
      refine (ih.eval h he).bind ?_
      rintro owner _ ⟨rfl, howner⟩
      rw [read_read, read_read]
      refine (together_read fun σ τ hs => hw.memberVariable name hs h.passes howner).bind ?_
      intro s s' hs
      refine (ih.eval h hv).bind ?_
      rintro v _ ⟨rfl, hv⟩
      refine (together_modify fun σ τ hστ => hw.setValue hστ hs.var hv).bind fun _ _ _ => ?_
      exact together_pure (.completed h.aligned rfl)
    | _ =>
      simp only [Parlance.exec]
      exact together_throw (hw.fault _)
  | conditional hc ha hb =>
    rw [Parlance.exec, Parlance.exec]
    refine (ih.eval h hc).bind ?_
    rintro v _ ⟨rfl, -⟩
    refine (hw.lift (R := Eq) fun _ _ => rfl).bind ?_
    rintro b _ rfl
    cases b with
    | true => exact ih.block h (List.forall_mem_nil _) ha
    | false => exact ih.block h (List.forall_mem_nil _) hb
  | @forEach name _ _ _ _ hv hb =>
    rw [Parlance.exec, Parlance.exec]
    refine (ih.eval h hv).bind ?_
    rintro v _ ⟨rfl, -⟩
    cases v with
    | iterable items => exact ih.iterate h hb
    | _ => exact together_throw (hw.fault _)
  | whileLoop hc hb =>
    rw [Parlance.exec, Parlance.exec]
    exact ih.loop h hc hb
  | returning he =>
    rw [Parlance.exec, Parlance.exec]
    refine (ih.eval h he).bind ?_
    rintro v _ ⟨rfl, hv⟩
    exact together_pure (.returned hv)
  | hole =>
    rw [Parlance.exec, Parlance.exec]
    exact together_throw (hw.fault _)

omit hw in
theorem execAll_alike {ss ss' : List Stmt} (h : w.At p p' ν ls ls')
    (hss : List.Forall₂ (Stmt.Alike w.code ν) ss ss') :
    w.Together (w.Outcomes ν ls.length) (Parlance.execAll p (n + 1) ls ss)
      (Parlance.execAll p' (n + 1) ls' ss') := by
  cases hss with
  | nil =>
    rw [Parlance.execAll, Parlance.execAll]
    exact together_pure (.completed h.aligned rfl)
  | cons hs hss =>
    rw [Parlance.execAll, Parlance.execAll]
    refine (ih.exec h hs).bind ?_
    intro o o' ho
    cases ho with
    | returned hv => exact together_pure (.returned hv)
    | completed hl length =>
      -- Outcomes are measured by the frames at the beginning, of which there are still as many.
      rw [← length]
      exact ih.execAll ⟨h.passes, h.renames, hl⟩ hss

/-! ### Blocks -/

omit hw in
theorem block_alike {f : Frame} {ss ss' : List Stmt} (h : w.At p p' ν ls ls')
    (hf : ∀ b ∈ f, w.sort b.2) (hss : List.Forall₂ (Stmt.Alike w.code ν) ss ss') :
    w.Together (w.Outcomes ν ls.length) (Parlance.block p (n + 1) ls f ss)
      (Parlance.block p' (n + 1) ls' (ν.frame f) ss') := by
  rw [Parlance.block, Parlance.block]
  refine (ih.execAll ⟨h.passes, h.renames, h.aligned.enter hf⟩ hss).bind ?_
  intro o o' ho
  cases ho with
  | returned hv => exact together_pure (.returned hv)
  | completed hl length =>
    refine together_pure (.completed (h.aligned.leave hl length) ?_)
    rw [List.length_tail, length]
    rfl

theorem iterate_alike {name : Name} {items : List Int} {ss ss' : List Stmt}
    (h : w.At p p' ν ls ls') (hss : List.Forall₂ (Stmt.Alike w.code ν) ss ss') :
    w.Together (w.Outcomes ν ls.length) (Parlance.iterate p (n + 1) ls name items ss)
      (Parlance.iterate p' (n + 1) ls' (ν.name name) items ss') := by
  cases items with
  | nil =>
    rw [Parlance.iterate, Parlance.iterate]
    exact together_pure (.completed h.aligned rfl)
  | cons i is =>
    rw [Parlance.iterate, Parlance.iterate]
    have item : ∀ b ∈ [(name, Value.integer i)], w.sort b.2 :=
      List.forall_mem_singleton.mpr (hw.integer i)
    refine (ih.block h item hss).bind ?_
    intro o o' ho
    cases ho with
    | returned hv => exact together_pure (.returned hv)
    | completed hl length =>
      rw [← length]
      exact ih.iterate ⟨h.passes, h.renames, hl⟩ hss

theorem loop_alike {e e' : Expr} {ss ss' : List Stmt} (h : w.At p p' ν ls ls')
    (he : e.Alike w.code ν e') (hss : List.Forall₂ (Stmt.Alike w.code ν) ss ss') :
    w.Together (w.Outcomes ν ls.length) (Parlance.loop p (n + 1) ls e ss)
      (Parlance.loop p' (n + 1) ls' e' ss') := by
  rw [Parlance.loop, Parlance.loop]
  refine (ih.eval h he).bind ?_
  rintro v _ ⟨rfl, -⟩
  refine (hw.lift (R := Eq) fun _ _ => rfl).bind ?_
  rintro b _ rfl
  cases b with
  | false => exact together_pure (.completed h.aligned rfl)
  | true =>
    refine (ih.block h (List.forall_mem_nil _) hss).bind ?_
    intro o o' ho
    cases ho with
    | returned hv => exact together_pure (.returned hv)
    | completed hl length =>
      rw [← length]
      exact ih.loop ⟨h.passes, h.renames, hl⟩ he hss

end Succ

/-- **Code that is alike runs alike**, with any amount of fuel. -/
theorem Lawful.alikeAt (hw : w.Lawful) (n : Nat) : w.AlikeAt n := by
  induction n with
  | zero => exact alikeAt_zero
  | succ n ih =>
    exact ⟨eval_alike hw ih, evalAll_alike ih, invoke_alike hw ih, exec_alike hw ih,
      execAll_alike ih, block_alike ih, iterate_alike hw ih, loop_alike hw ih⟩

end Pairing

end Parlance
