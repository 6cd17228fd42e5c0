/-
A checked program keeps to its types.

Begun in a store that models the setting, in frames that fit the blocks of a covered place,
a typed expression keeps the store modelling the setting, answers a value of its type, and
stops for nothing but what is to be expected.  The same is said of each function of the
evaluator, and all of them are proved together by induction on the fuel: every call that one
of them makes has one less.

For one amount of fuel there is one lemma for each function, given all of them for the
amount below.
-/
import Parlance.Proofs.Kinds.Setting

namespace Parlance

theorem holds_moved {lax : Bool} {targets sources : List (Option Ty)} {vs : List Value}
    (ht : List.Forall₂ Ty.Takes targets sources) (h : List.Forall₂ (Holds lax) sources vs) :
    List.Forall₂ (Holds lax) targets vs := by
  induction ht generalizing vs with
  | nil => exact h
  | cons ht _ ih =>
    cases h with
    | cons hv hvs => exact .cons (hv.moved ht) (ih hvs)

/-- A careful comparison that passed the check is not one of `Comparable` operands. -/
theorem careful_binary {lax : Bool} {op : Name} {l r : Expr} {t : Option Ty} {s : Ty}
    (hc : lax = true ∨ (Node.expr (.binary op l r t)).careful = true)
    (hs : binaryType op l.type? r.type? = .ok s) :
    lax = true ∨ ∀ o, Operator.ofName? op = some (.ordered o) →
      ∀ u, l.type? = some u → u.is .comparable = false := by
  refine hc.imp_right ?_
  intro hc o ho u hu
  rw [binaryType, ho] at hs
  obtain ⟨-, l', r', hl, hr, hsame, -⟩ := Operator.comparisonType_ok hs
  have hname : l'.name = r'.name := by simpa [Ty.same] using hsame
  rw [hu] at hl
  cases hl
  cases hcomp : u.is .comparable with
  | false => rfl
  | true =>
    have hr' : r'.is .comparable = true := by rwa [Ty.is, ← hname]
    simp [Node.careful, ordersOperands, ho, hu, hr, Ty.isKnown, hcomp, hr'] at hc

namespace Setting

variable (w : Setting)

/-- A place of the check that is covered, the frames that are there at run time, and a store. -/
structure At (c : Context) (locals : Locals) (σ : Store) : Prop where
  covers : w.Covers c
  fit : locals.Fit (Holds w.lax) c.blocks
  models : w.Models σ

theorem At.of_models {w : Setting} {c : Context} {locals : Locals} {σ τ : Store}
    (h : w.At c locals σ) (hm : w.Models τ) : w.At c locals τ :=
  ⟨h.covers, h.fit, hm⟩

/-- The evaluation keeps the store modelling the setting, its answer satisfies `Q`, and it stops
for nothing but what is to be expected. -/
abbrev Safe {α : Type} (x : Eval α) (σ : Store) (Q : α → Prop) : Prop :=
  Eval.Safe w.Models (Expected w.stream w.lax) x σ Q

/-- An outcome with frames that fit these blocks, or with a value to return of that type. -/
def Comes (blocks : Blocks) (returns? : Option Ty) : Outcome → Prop
  | .completed locals => locals.Fit (Holds w.lax) blocks
  | .returned v => Holds w.lax returns? v

/-- The same of the statements of a block, of which the frame is about to be dropped. -/
def Ends (blocks : Blocks) (returns? : Option Ty) : Outcome → Prop
  | .completed locals => Locals.Fit (Holds w.lax) blocks.tail locals.tail
  | .returned v => Holds w.lax returns? v

theorem ends_extend {w : Setting} (c : Context) (declared : Option Variable) :
    w.Ends (c.extend declared).blocks (c.extend declared).returns?
      = w.Ends c.blocks c.returns? := by
  funext o
  cases o <;> simp [Ends]

/-- With so much fuel, evaluation keeps to the types. -/
structure SoundAt (n : Nat) : Prop where
  eval : ∀ {c locals σ e t}, w.At c locals σ → Expr.Typed c e t → Careful w.lax e.walk →
    w.Safe (eval w.pass locals n e) σ (Holds w.lax t)
  evalAll : ∀ {c locals σ es ts}, w.At c locals σ → Expr.AllTyped c es ts →
    Careful w.lax (walkExprs es) →
    w.Safe (evalAll w.pass locals n es) σ (List.Forall₂ (Holds w.lax) ts)
  invoke : ∀ {σ s r vs}, w.Models σ → w.Implements s r →
    List.Forall₂ (Holds w.lax) s.function.parameterTypes vs →
    w.Safe (invoke n r vs) σ (Holds w.lax s.function.returnType)
  exec : ∀ {c locals σ s d}, w.At c locals σ → c.blocks ≠ [] → Stmt.Typed c s d →
    Careful w.lax s.walk →
    w.Safe (exec w.pass n locals s) σ (w.Comes (c.extend d).blocks c.returns?)
  execAll : ∀ {c locals σ ss}, w.At c locals σ → c.blocks ≠ [] → Stmt.AllTyped c ss →
    Careful w.lax (walkStmts ss) →
    w.Safe (execAll w.pass n locals ss) σ (w.Ends c.blocks c.returns?)
  block : ∀ {c locals σ vars frame ss}, w.At c locals σ → (∀ v ∈ vars, Ty.Plain v.type) →
    Frame.Fits (Holds w.lax) vars frame → Stmt.AllTyped (c.enter vars) ss →
    Careful w.lax (walkStmts ss) →
    w.Safe (block w.pass n locals frame ss) σ (w.Comes c.blocks c.returns?)
  iterate : ∀ {c locals σ name items ss}, w.At c locals σ →
    Stmt.AllTyped (c.enter [c.blocks.item name]) ss → Careful w.lax (walkStmts ss) →
    w.Safe (iterate w.pass n locals name items ss) σ (w.Comes c.blocks c.returns?)
  loop : ∀ {c locals σ e t ss}, w.At c locals σ → Expr.Typed c e t →
    Ty.Takes (some Builtin.boolean.type) t → Stmt.AllTyped (c.enter []) ss →
    Careful w.lax e.walk → Careful w.lax (walkStmts ss) →
    w.Safe (loop w.pass n locals e ss) σ (w.Comes c.blocks c.returns?)

variable {w} {n : Nat}

theorem soundAt_zero : w.SoundAt 0 := by
  refine ⟨?_, ?_, ?_, ?_, ?_, ?_, ?_, ?_⟩
  · intro c locals σ e t h _ _
    rw [Parlance.eval]
    exact Eval.safe_outOfFuel h.models
  · intro c locals σ es ts h _ _
    rw [Parlance.evalAll]
    exact Eval.safe_outOfFuel h.models
  · intro σ s r vs h _ _
    rw [Parlance.invoke]
    exact Eval.safe_outOfFuel h
  · intro c locals σ s d h _ _ _
    rw [Parlance.exec]
    exact Eval.safe_outOfFuel h.models
  · intro c locals σ ss h _ _ _
    rw [Parlance.execAll]
    exact Eval.safe_outOfFuel h.models
  · intro c locals σ vars frame ss h _ _ _ _
    rw [Parlance.block]
    exact Eval.safe_outOfFuel h.models
  · intro c locals σ name items ss h _ _
    rw [Parlance.iterate]
    exact Eval.safe_outOfFuel h.models
  · intro c locals σ e t ss h _ _ _ _ _
    rw [Parlance.loop]
    exact Eval.safe_outOfFuel h.models

/-! ### Expressions -/

section Step

variable (ih : w.SoundAt n) {c : Context} {locals : Locals} {σ : Store}

/-- A variable that the check found outside of all blocks is found at run time. -/
theorem At.scopeVariable (h : w.At c locals σ) {name : Name} {v : Variable}
    (hv : c.variableOf name = .ok v) (hn : c.blocks.find? name = none) :
    ∃ s r, w.table.slot? name = some s ∧ s.var = v ∧ w.KeepsSlot s r ∧
      σ.scopeVariable w.pass.scope name = .ok r := by
  rw [Context.variableOf, hn] at hv
  cases hs : c.store.scopeVariable c.pass.scope name with
  | error f =>
    rw [hs] at hv
    cases hv
  | ok s =>
    rw [hs] at hv
    cases hv
    rw [Store.scopeVariable_alone _ h.covers.alone.pass.outer] at hs
    have hw := h.covers.extends_table.slot? hs
    obtain ⟨r, hr, hk⟩ := h.models.slot? hw
    exact ⟨s, r, hw, rfl, hk, (Store.scopeVariable_alone _ w.alone).mpr hr⟩

/-- So is a function. -/
theorem At.scopeFunction (h : w.At c locals σ) {name : Name} {count : Nat} {f : Function}
    (hf : c.functionOf name count = .ok f) :
    ∃ s r, s.function = f ∧ w.Implements s r ∧
      σ.scopeFunction w.pass.scope name count = .ok r := by
  obtain ⟨s, hs, rfl⟩ := Context.functionOf_ok.mp hf
  rw [← Store.scopeFunction_ok, Store.scopeFunction_alone _ h.covers.alone.pass.outer] at hs
  obtain ⟨r, hr, hi⟩ := h.models.routine? (h.covers.extends_table.routine? hs)
  exact ⟨s, r, rfl, hi, (Store.scopeFunction_alone _ w.alone).mpr hr⟩

include ih

theorem eval_succ {e : Expr} {t : Option Ty} (h : w.At c locals σ) (ht : e.Typed c t)
    (hc : Careful w.lax e.walk) :
    w.Safe (eval w.pass locals (n + 1) e) σ (Holds w.lax t) := by
  cases ht with
  | literal hv =>
    rw [Parlance.eval]
    exact Eval.safe_pure h.models (holds_literal hv)
  | group _ he =>
    rw [Parlance.eval]
    rw [Expr.walk] at hc
    exact ih.eval h he hc.tail
  | @binary op l r tl tr t hl hr hop =>
    simp only [Parlance.eval]
    rw [Expr.walk] at hc
    have hguard := careful_binary hc.head (hl.type?_eq ▸ hr.type?_eq ▸ hop)
    rw [hl.type?_eq] at hguard
    refine Eval.safe_bind (ih.eval h hl hc.tail.left) ?_
    intro left τ _ hm hleft
    refine Eval.safe_bind (Eval.safe_lift hm (binarySettled_meets hop hleft)) ?_
    intro settled τ' _ hm hsettled
    cases settled with
    | some b => exact Eval.safe_pure hm (hsettled b rfl)
    | none =>
      refine Eval.safe_bind (ih.eval (h.of_models hm) hr hc.tail.right) ?_
      intro right τ'' _ hm hright
      exact Eval.safe_lift hm (binaryApply_meets hop hleft hright hguard)
  | @access name v t hv ht =>
    simp only [Parlance.eval]
    cases hb : c.blocks.find? name with
    | some v' =>
      obtain ⟨x, hx, hh⟩ := exists_of_rel (h.fit.find? name) hb
      rw [Context.variableOf, hb] at hv
      cases hv
      rw [hx]
      exact Eval.safe_pure h.models (ht ▸ hh)
    | none =>
      rw [none_of_rel (h.fit.find? name) hb]
      obtain ⟨s, r, -, rfl, hk, hr⟩ := h.scopeVariable hv hb
      refine Eval.safe_bind (Eval.safe_read h.models hr) ?_
      intro _ τ _ hm he
      subst he
      exact Eval.safe_pure hm (ht ▸ hk.value)
  | member _ hr hv _ =>
    exact absurd hv (h.covers.alone.memberOf_ne (hr.plain h.covers.alone) _ _)
  | @call name arguments types f has hf hts =>
    simp only [Parlance.eval]
    rw [Expr.walk] at hc
    refine Eval.safe_bind (ih.evalAll h has hc.tail) ?_
    intro vs τ _ hm hvs
    have hlen : vs.length = types.length := hvs.length_eq.symm
    obtain ⟨s, r, rfl, hi, hr⟩ := (h.of_models hm).scopeFunction (hlen ▸ hf)
    refine Eval.safe_bind (Eval.safe_read hm hr) ?_
    intro _ τ' _ hm' he
    subst he
    exact ih.invoke hm' hi (holds_moved hts hvs)
  | memberCall _ _ hr hf _ =>
    exact absurd hf (h.covers.alone.memberFunctionOf_ne (hr.plain h.covers.alone) _ _ _)

theorem evalAll_succ {es : List Expr} {ts : List (Option Ty)} (h : w.At c locals σ)
    (ht : Expr.AllTyped c es ts) (hc : Careful w.lax (walkExprs es)) :
    w.Safe (evalAll w.pass locals (n + 1) es) σ (List.Forall₂ (Holds w.lax) ts) := by
  cases ht with
  | nil =>
    rw [Parlance.evalAll]
    exact Eval.safe_pure h.models .nil
  | cons he hes =>
    simp only [Parlance.evalAll]
    rw [walkExprs] at hc
    refine Eval.safe_bind (ih.eval h he hc.left) ?_
    intro v τ _ hm hv
    refine Eval.safe_bind (ih.evalAll (h.of_models hm) hes hc.right) ?_
    intro vs τ' _ hm' hvs
    exact Eval.safe_pure hm' (.cons hv hvs)

/-! ### Functions -/

theorem invoke_succ {s r : Routine} {vs : List Value} (hm : w.Models σ) (hi : w.Implements s r)
    (hvs : List.Forall₂ (Holds w.lax) s.function.parameterTypes vs) :
    w.Safe (invoke (n + 1) r vs) σ (Holds w.lax s.function.returnType) := by
  cases hi with
  | print _ _ hp hr =>
    rw [hp] at hvs
    obtain ⟨v, rest, -, hrest, rfl⟩ := List.forall₂_cons_left_iff.mp hvs
    cases hrest
    simp only [Parlance.invoke]
    refine Eval.safe_bind (Q := (· = v)) (Eval.safe_lift hm rfl) fun _ τ _ hm' he => ?_
    subst he
    refine Eval.safe_bind (Eval.safe_lift hm' (Value.text_meets _)) ?_
    intro t τ' _ hm'' _
    refine Eval.safe_bind
      (Eval.safe_write hm'' (hm''.write _) fun h => .encoding (hm''.encoding ▸ h)) ?_
    intro _ τ'' _ hm''' _
    rw [hr]
    exact Eval.safe_pure hm''' (.of_builtin rfl rfl)
  | @method f m _ _ ht =>
    cases ht with
    | @intro c block types result _ hcov hl hp hr hb hblocks hret hs hcare hend =>
      rw [hp, List.forall₂_map_left_iff] at hvs
      obtain ⟨frame, hd, hfit⟩ := Frame.Fits.declareAll .nil hl hb hvs
      simp only [Parlance.invoke]
      refine Eval.safe_bind (Q := (· = frame)) (Eval.safe_lift hm ?_) fun frame' τ _ hm' he => ?_
      · rw [hd]
        rfl
      subst he
      have hat : w.At c [frame'] τ := ⟨hcov, hblocks ▸ .cons hfit .nil, hm'⟩
      have hne : c.blocks ≠ [] := hblocks ▸ List.cons_ne_nil _ _
      refine Eval.safe_bind (ih.execAll hat hne hs hcare) ?_
      intro o τ' ho hm'' hq
      rw [hr]
      cases o with
      | returned v => exact Eval.safe_pure hm'' (hret ▸ hq)
      | completed locals' =>
        exact Eval.safe_pure hm'' (hend.resolve_right fun hd => not_completed hd ho)

/-! ### Statements -/

omit ih in
/-- A declaration that passed the check adds its variable to the innermost frame. -/
theorem declare_safe {name : Name} {t : Option Ty} {v : Variable} {x : Value}
    (h : w.At c locals σ) (hne : c.blocks ≠ []) (hv : c.declare name t = .ok v)
    (hx : Holds w.lax t x) :
    w.Safe (Eval.declare w.pass locals name x) σ
      (Locals.Fit (Holds w.lax) (c.extend (some v)).blocks) := by
  have hfit := h.fit
  have htype := Context.type_of_declare hv
  cases hb : c.blocks with
  | nil => exact absurd hb hne
  | cons block outer =>
    rw [hb] at hfit
    obtain ⟨frame, rest, hframe, hrest, rfl⟩ := List.forall₂_cons_left_iff.mp hfit
    simp only [Context.declare, hb] at hv
    split at hv
    · cases hv
    · next hfree =>
      cases hv
      obtain ⟨frame', hd, hfit'⟩ := hframe.declare (v := ⟨name, name, t, .block outer.length⟩)
        (by simpa using hfree) hx
      simp only [Eval.declare]
      refine Eval.safe_bind (Q := (· = frame')) (Eval.safe_lift h.models ?_)
        fun frame'' τ _ hm he => ?_
      · rw [hd]
        rfl
      · subst he
        refine Eval.safe_pure hm ?_
        rw [Context.extend, hb]
        exact .cons hfit' hrest

theorem exec_declaration {name : Name} {typeName : Option Text} {value : Option Expr}
    {t : Option Ty} {v : Variable} (h : w.At c locals σ) (hne : c.blocks ≠ [])
    (hd : Declared c typeName value t) (hv : c.declare name t = .ok v)
    (hc : Careful w.lax (Stmt.declaration name typeName value (some v)).walk) :
    w.Safe (exec w.pass (n + 1) locals (.declaration name typeName value (some v))) σ
      (w.Comes (c.extend (some v)).blocks c.returns?) := by
  rw [Stmt.walk] at hc
  have declared {x : Value} {τ : Store} (hm : w.Models τ) (hx : Holds w.lax t x) :
      w.Safe (do return .completed (← Eval.declare w.pass locals name x)) τ
        (w.Comes (c.extend (some v)).blocks c.returns?) :=
    Eval.safe_bind (declare_safe (h.of_models hm) hne hv hx) fun _ _ _ hm' hfit =>
      Eval.safe_pure hm' hfit
  simp only [Parlance.exec]
  cases hd with
  | unset _ =>
    refine declared h.models ?_
    rcases hc.head with hlax | hcare
    · rw [hlax]
      exact .nil
    · cases hcare
  | inferred he => exact Eval.safe_bind (ih.eval h he hc.tail) fun _ _ _ hm hx => declared hm hx
  | given _ he ht =>
    exact Eval.safe_bind (ih.eval h he hc.tail) fun _ _ _ hm hx => declared hm (hx.moved ht)

theorem exec_assignment {target value : Expr} {tt tv : Option Ty} (h : w.At c locals σ)
    (ha : target.isAccess = true) (ht : target.Typed c tt) (hv : value.Typed c tv)
    (htakes : Ty.Takes tt tv) (hc : Careful w.lax (Stmt.assignment target value).walk) :
    w.Safe (exec w.pass (n + 1) locals (.assignment target value)) σ
      (w.Comes c.blocks c.returns?) := by
  rw [Stmt.walk] at hc
  cases ht with
  | @access name v t hvar ht =>
    simp only [Parlance.exec]
    cases hb : c.blocks.find? name with
    | some v' =>
      obtain ⟨x, hx, -⟩ := exists_of_rel (h.fit.find? name) hb
      rw [Context.variableOf, hb] at hvar
      cases hvar
      rw [hx]
      refine Eval.safe_bind (ih.eval h hv hc.tail.right) ?_
      intro y τ _ hm hy
      exact Eval.safe_pure hm (h.fit.set hb (ht ▸ hy.moved htakes))
    | none =>
      rw [none_of_rel (h.fit.find? name) hb]
      obtain ⟨s, r, hs, rfl, hk, hr⟩ := h.scopeVariable hvar hb
      refine Eval.safe_bind (Eval.safe_read h.models hr) ?_
      intro r' τ _ hm he
      subst he
      refine Eval.safe_bind (ih.eval (h.of_models hm) hv hc.tail.right) ?_
      intro y τ' _ hm' hy
      have hname : w.table.slot? r'.var.name = some s := by
        rw [hk.name]
        exact w.distinct.slots s (Table.mem_of_slot? hs).1
      refine Eval.safe_bind (Eval.safe_modify (hm'.setValue hname (ht ▸ hy.moved htakes))) ?_
      intro _ τ'' _ hm'' _
      exact Eval.safe_pure hm'' h.fit
  | member _ hr hv' _ =>
    exact absurd hv' (h.covers.alone.memberOf_ne (hr.plain h.covers.alone) _ _)
  | _ => cases ha

theorem exec_succ {s : Stmt} {d : Option Variable} (h : w.At c locals σ) (hne : c.blocks ≠ [])
    (hs : Stmt.Typed c s d) (hc : Careful w.lax s.walk) :
    w.Safe (exec w.pass (n + 1) locals s) σ (w.Comes (c.extend d).blocks c.returns?) := by
  cases hs with
  | expression _ he =>
    simp only [Parlance.exec]
    rw [Stmt.walk] at hc
    refine Eval.safe_bind (ih.eval h he hc.tail) ?_
    intro v τ _ hm _
    exact Eval.safe_pure hm h.fit
  | declaration hd hv => exact exec_declaration ih h hne hd hv hc
  | assignment ha ht hv htakes => exact exec_assignment ih h ha ht hv htakes hc
  | conditional he hb _ hthen helse =>
    simp only [Parlance.exec]
    rw [Stmt.walk] at hc
    refine Eval.safe_bind (ih.eval h he hc.tail.left) ?_
    intro v τ _ hm hv
    refine Eval.safe_bind (Eval.safe_lift hm (Value.truth_meets hv hb)) ?_
    intro b τ' _ hm' _
    cases b with
    | true => exact ih.block (h.of_models hm') (by simp) .nil hthen hc.tail.right.left
    | false => exact ih.block (h.of_models hm') (by simp) .nil helse hc.tail.right.right
  | forEach hv hi _ hs =>
    simp only [Parlance.exec]
    rw [Stmt.walk] at hc
    refine Eval.safe_bind (ih.eval h hv hc.tail.left) ?_
    intro v τ _ hm hh
    rcases hh.iterable hi with ⟨items, rfl⟩ | ⟨hlax, rfl⟩
    · exact ih.iterate (h.of_models hm) hs hc.tail.right
    · exact Eval.safe_throw hm (.wrongKind hlax rfl)
  | whileLoop he hb hs =>
    rw [Parlance.exec]
    rw [Stmt.walk] at hc
    exact ih.loop h he hb hs hc.tail.left hc.tail.right
  | returning hr hv ha =>
    simp only [Parlance.exec]
    rw [Stmt.walk] at hc
    refine Eval.safe_bind (ih.eval h hv hc.tail) ?_
    intro v τ _ hm hh
    refine Eval.safe_pure hm ?_
    rw [Comes, hr]
    exact hh.moved ⟨_, _, rfl, rfl, ha⟩

theorem execAll_succ {ss : List Stmt} (h : w.At c locals σ) (hne : c.blocks ≠ [])
    (hs : Stmt.AllTyped c ss) (hc : Careful w.lax (walkStmts ss)) :
    w.Safe (execAll w.pass (n + 1) locals ss) σ (w.Ends c.blocks c.returns?) := by
  cases hs with
  | nil =>
    rw [Parlance.execAll]
    exact Eval.safe_pure h.models h.fit.tail
  | @cons _ s d ss hs hss =>
    simp only [Parlance.execAll]
    rw [walkStmts] at hc
    refine Eval.safe_bind (ih.exec h hne hs hc.left) ?_
    intro o τ _ hm ho
    cases o with
    | returned v => exact Eval.safe_pure hm ho
    | completed locals' =>
      have hat : w.At (c.extend d) locals' τ := ⟨h.covers.extend (hs.plain h.covers.alone), ho, hm⟩
      have := ih.execAll hat (Context.extend_ne_nil hne) hss hc.right
      rwa [ends_extend] at this

theorem block_succ {vars : List Variable} {frame : Frame} {ss : List Stmt}
    (h : w.At c locals σ) (hplain : ∀ v ∈ vars, Ty.Plain v.type)
    (hf : Frame.Fits (Holds w.lax) vars frame) (hs : Stmt.AllTyped (c.enter vars) ss)
    (hc : Careful w.lax (walkStmts ss)) :
    w.Safe (block w.pass (n + 1) locals frame ss) σ (w.Comes c.blocks c.returns?) := by
  simp only [Parlance.block]
  have hat : w.At (c.enter vars) (frame :: locals) σ :=
    ⟨h.covers.enter hplain, .cons hf h.fit, h.models⟩
  refine Eval.safe_bind (ih.execAll hat (List.cons_ne_nil _ _) hs hc) ?_
  intro o τ _ hm ho
  refine Eval.safe_pure hm ?_
  cases o with
  | returned v => exact ho
  | completed locals' => exact ho

theorem iterate_succ {name : Name} {items : List Int} {ss : List Stmt} (h : w.At c locals σ)
    (hs : Stmt.AllTyped (c.enter [c.blocks.item name]) ss) (hc : Careful w.lax (walkStmts ss)) :
    w.Safe (iterate w.pass (n + 1) locals name items ss) σ (w.Comes c.blocks c.returns?) := by
  cases items with
  | nil =>
    rw [Parlance.iterate]
    exact Eval.safe_pure h.models h.fit
  | cons i items =>
    simp only [Parlance.iterate]
    have hitem : ∀ v ∈ [c.blocks.item name], Ty.Plain v.type := by
      intro v hv
      rw [List.mem_singleton.mp hv]
      exact Ty.plain_type .integer
    have hframe : Frame.Fits (Holds w.lax) [c.blocks.item name] [(name, .integer i)] :=
      .cons ⟨rfl, .of_builtin rfl rfl⟩ .nil
    refine Eval.safe_bind (ih.block h hitem hframe hs hc) ?_
    intro o τ _ hm ho
    cases o with
    | returned v => exact Eval.safe_pure hm ho
    | completed locals' => exact ih.iterate ⟨h.covers, ho, hm⟩ hs hc

theorem loop_succ {e : Expr} {t : Option Ty} {ss : List Stmt} (h : w.At c locals σ)
    (he : e.Typed c t) (hb : Ty.Takes (some Builtin.boolean.type) t)
    (hs : Stmt.AllTyped (c.enter []) ss) (hce : Careful w.lax e.walk)
    (hcs : Careful w.lax (walkStmts ss)) :
    w.Safe (loop w.pass (n + 1) locals e ss) σ (w.Comes c.blocks c.returns?) := by
  simp only [Parlance.loop]
  refine Eval.safe_bind (ih.eval h he hce) ?_
  intro v τ _ hm hv
  refine Eval.safe_bind (Eval.safe_lift hm (Value.truth_meets hv hb)) ?_
  intro b τ' _ hm' _
  cases b with
  | false => exact Eval.safe_pure hm' h.fit
  | true =>
    refine Eval.safe_bind (ih.block (h.of_models hm') (by simp) .nil hs hcs)
      fun o τ'' _ hm'' ho => ?_
    cases o with
    | returned v => exact Eval.safe_pure hm'' ho
    | completed locals' => exact ih.loop ⟨h.covers, ho, hm''⟩ he hb hs hce hcs

end Step

/-- **Evaluation keeps to the types, whatever the fuel.** -/
theorem soundAt (w : Setting) (n : Nat) : w.SoundAt n := by
  induction n with
  | zero => exact soundAt_zero
  | succ n ih =>
    exact ⟨eval_succ ih, evalAll_succ ih, invoke_succ ih, exec_succ ih, execAll_succ ih,
      block_succ ih, iterate_succ ih, loop_succ ih⟩

end Setting

end Parlance
