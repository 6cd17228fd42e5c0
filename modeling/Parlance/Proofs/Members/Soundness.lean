/-
A guest keeps to its types.

Begun in a store that models the guest, in frames that fit the blocks of a covered place, a typed
expression that comes to an answer leaves a store that models the guest, and the answer is of its
type.  The same is said of each function of the evaluator, and all of them are proved together by
induction on the fuel.  Of evaluations that stop nothing is said: a function of the host may fail
for whatever it likes, and `Nil` stops a program in many places.

For one amount of fuel there is one lemma for each function, given all of them for the amount
below.
-/
import Parlance.Proofs.Members.Guest

namespace Parlance

open Eval (Gives gives_pure gives_throw gives_lift gives_read gives_modify gives_write)

namespace Guest

variable (w : Guest)

/-- A place of the check that is covered, the frames that are there at run time, and a store. -/
structure At (c : Context) (locals : Locals) (σ : Store) : Prop where
  covers : w.Covers c
  fit : locals.Fit w.premises.Fits c.blocks
  models : w.Models σ

theorem At.of_models {w : Guest} {c : Context} {locals : Locals} {σ τ : Store}
    (h : w.At c locals σ) (hm : w.Models τ) : w.At c locals τ :=
  ⟨h.covers, h.fit, hm⟩

/-- If the evaluation answers, the store still models the guest and the answer satisfies `Q`. -/
abbrev Gives {α : Type} (x : Eval α) (σ : Store) (Q : α → Prop) : Prop :=
  Eval.Gives w.Models x σ Q

/-- An outcome with frames that fit these blocks, or with a value to return of that type. -/
def Comes (blocks : Blocks) (returns? : Option Ty) : Outcome → Prop
  | .completed locals => locals.Fit w.premises.Fits blocks
  | .returned v => w.premises.Fits returns? v

/-- The same of the statements of a block, of which the frame is about to be dropped. -/
def Ends (blocks : Blocks) (returns? : Option Ty) : Outcome → Prop
  | .completed locals => Locals.Fit w.premises.Fits blocks.tail locals.tail
  | .returned v => w.premises.Fits returns? v

theorem ends_extend {w : Guest} (c : Context) (declared : Option Variable) :
    w.Ends (c.extend declared).blocks (c.extend declared).returns?
      = w.Ends c.blocks c.returns? := by
  funext o
  cases o <;> simp [Ends]

/-- With so much fuel, evaluation keeps to the types. -/
structure SoundAt (n : Nat) : Prop where
  eval : ∀ {c locals σ e t}, w.At c locals σ → Expr.Typed c e t → w.Minds e.walk →
    w.Gives (eval w.pass locals n e) σ (w.premises.Fits t)
  evalAll : ∀ {c locals σ es ts}, w.At c locals σ → Expr.AllTyped c es ts →
    w.Minds (walkExprs es) →
    w.Gives (evalAll w.pass locals n es) σ (List.Forall₂ w.premises.Fits ts)
  invoke : ∀ {σ r vs t}, w.Models σ → w.Answers r vs t →
    w.Gives (invoke n r vs) σ (w.premises.Fits t)
  exec : ∀ {c locals σ s d}, w.At c locals σ → c.blocks ≠ [] → Stmt.Typed c s d →
    w.Minds s.walk →
    w.Gives (exec w.pass n locals s) σ (w.Comes (c.extend d).blocks c.returns?)
  execAll : ∀ {c locals σ ss}, w.At c locals σ → c.blocks ≠ [] → Stmt.AllTyped c ss →
    w.Minds (walkStmts ss) →
    w.Gives (execAll w.pass n locals ss) σ (w.Ends c.blocks c.returns?)
  block : ∀ {c locals σ vars frame ss}, w.At c locals σ →
    Frame.Fits w.premises.Fits vars frame → Stmt.AllTyped (c.enter vars) ss →
    w.Minds (walkStmts ss) →
    w.Gives (block w.pass n locals frame ss) σ (w.Comes c.blocks c.returns?)
  iterate : ∀ {c locals σ name items ss}, w.At c locals σ →
    Stmt.AllTyped (c.enter [c.blocks.item name]) ss → w.Minds (walkStmts ss) →
    w.Gives (iterate w.pass n locals name items ss) σ (w.Comes c.blocks c.returns?)
  loop : ∀ {c locals σ e t ss}, w.At c locals σ → Expr.Typed c e t →
    Stmt.AllTyped (c.enter []) ss → w.Minds e.walk → w.Minds (walkStmts ss) →
    w.Gives (loop w.pass n locals e ss) σ (w.Comes c.blocks c.returns?)

variable {w} {n : Nat}

theorem soundAt_zero : w.SoundAt 0 :=
  ⟨fun _ _ _ => gives_throw _, fun _ _ _ => gives_throw _, fun _ _ => gives_throw _,
    fun _ _ _ _ => gives_throw _, fun _ _ _ _ => gives_throw _, fun _ _ _ _ => gives_throw _,
    fun _ _ _ => gives_throw _, fun _ _ _ _ _ => gives_throw _⟩

section Step

variable {c : Context} {locals : Locals} {σ : Store} (ih : w.SoundAt n)

/-! ### Expressions -/

include ih

theorem eval_succ {e : Expr} {t : Option Ty} (h : w.At c locals σ) (ht : e.Typed c t)
    (hc : w.Minds e.walk) : w.Gives (eval w.pass locals (n + 1) e) σ (w.premises.Fits t) := by
  cases ht with
  | literal hv =>
    rw [Parlance.eval]
    exact gives_pure h.models (Premises.fits_literal hv)
  | group _ he =>
    rw [Parlance.eval]
    rw [Expr.walk] at hc
    exact ih.eval h he hc.tail
  | @binary op l r tl tr t hl hr hop =>
    simp only [Parlance.eval]
    rw [Expr.walk] at hc
    refine (ih.eval h hl hc.tail.left).bind fun left τ hm hleft => ?_
    refine (gives_lift hm _).bind fun settled τ' hm hsettled => ?_
    cases settled with
    | some b => exact gives_pure hm (Premises.fits_binarySettled hop hsettled)
    | none =>
      refine (ih.eval (h.of_models hm) hr hc.tail.right).bind fun right τ'' hm hright => ?_
      exact (gives_lift hm _).mono fun v hv => Premises.fits_binaryApply hop hleft hright hv
  | @access name v t hv ht =>
    simp only [Parlance.eval]
    cases hb : c.blocks.find? name with
    | some v' =>
      obtain ⟨x, hx, hh⟩ := exists_of_rel (h.fit.find? name) hb
      rw [Context.variableOf, hb] at hv
      cases hv
      rw [hx]
      exact gives_pure h.models (ht ▸ hh)
    | none =>
      rw [none_of_rel (h.fit.find? name) hb]
      refine (gives_read h.models _).bind fun r τ hm hr => ?_
      exact gives_pure hm (ht ▸ (h.covers.scopeVariable h.models hv hb hr).value)
  | @member receiver owner name v t _ hr hv ht =>
    simp only [Parlance.eval]
    rw [Expr.walk] at hc
    have hshared := hc.head.1 owner hr.type?_eq
    refine (ih.eval h hr hc.tail).bind fun x τ hm hx => ?_
    refine (gives_read hm _).bind fun id τ' hm' hid => ?_
    refine (gives_read hm' _).bind fun s τ'' hm'' hs => ?_
    have hserves := h.covers.memberVariable_serves hv hshared hx hm hm' hid hs
    exact gives_pure hm'' (ht ▸ hserves.value)
  | @call name arguments types f has hf hts =>
    simp only [Parlance.eval]
    rw [Expr.walk] at hc
    have hu := hc.head.2
    refine (ih.evalAll h has hc.tail).bind fun vs τ hm hvs => ?_
    have hlen : vs.length = types.length := hvs.length_eq.symm
    refine (gives_read hm _).bind fun r τ' hm' hr => ?_
    refine ih.invoke hm' ?_
    rw [hlen] at hr
    exact h.covers.scopeFunction hm hf (has.length_eq ▸ hu) (Premises.fits_moved hts hvs) hr
  | @memberCall receiver owner name arguments types f has _ hr hf hts =>
    simp only [Parlance.eval]
    rw [Expr.walk] at hc
    have hshared := hc.head.1 owner hr.type?_eq
    rw [has.length_eq] at hshared
    refine (ih.eval h hr hc.tail.left).bind fun x τ hm hx => ?_
    refine (ih.evalAll (h.of_models hm) has hc.tail.right).bind fun vs τ' hm' hvs => ?_
    have hlen : vs.length = types.length := hvs.length_eq.symm
    refine (gives_read hm' _).bind fun id τ'' hm'' hid => ?_
    refine (gives_read hm'' _).bind fun r υ hm''' hfound => ?_
    rw [hlen] at hfound
    exact ih.invoke hm''' (h.covers.memberFunction_answers hf hshared hx hm' hm'' hid hfound
      (Premises.fits_moved hts hvs))

theorem evalAll_succ {es : List Expr} {ts : List (Option Ty)} (h : w.At c locals σ)
    (ht : Expr.AllTyped c es ts) (hc : w.Minds (walkExprs es)) :
    w.Gives (evalAll w.pass locals (n + 1) es) σ (List.Forall₂ w.premises.Fits ts) := by
  cases ht with
  | nil =>
    rw [Parlance.evalAll]
    exact gives_pure h.models .nil
  | cons he hes =>
    simp only [Parlance.evalAll]
    rw [walkExprs] at hc
    refine (ih.eval h he hc.left).bind fun v τ hm hv => ?_
    refine (ih.evalAll (h.of_models hm) hes hc.right).bind fun vs τ' hm' hvs => ?_
    exact gives_pure hm' (.cons hv hvs)

/-! ### Functions -/

theorem invoke_succ {r : Routine} {vs : List Value} {t : Option Ty} (hm : w.Models σ)
    (ha : w.Answers r vs t) : w.Gives (invoke (n + 1) r vs) σ (w.premises.Fits t) := by
  cases ha with
  | host h =>
    intro v τ hv
    obtain ⟨hk, hfits⟩ := h.answers _ _ hm.kept hv
    have hsize := ((keepsAt (n + 1)).invoke (d := False) r vs hv).1.same_functions.size
    exact ⟨hm.of_own hk (Nat.le_of_eq hsize.symm) (h.spares _ _ _ _ hm.kept hv _ w.fresh), hfits⟩
  | @own s hi hvs =>
    cases hi with
    | print _ _ hr =>
      simp only [Parlance.invoke]
      refine (gives_lift hm _).bind fun v τ hm' _ => ?_
      refine (gives_lift hm' _).bind fun t τ' hm'' _ => ?_
      refine (gives_write (hm''.write _)).bind fun _ τ'' hm''' _ => ?_
      exact gives_pure hm''' .nil
    | @method f m _ _ ht =>
      cases ht with
      | @intro c block types result _ hcov hl hp hr hb hblocks hret hs hmind =>
        rw [hp, List.forall₂_map_left_iff] at hvs
        obtain ⟨frame, hd, hfit⟩ := Frame.Fits.declareAll .nil hl hb hvs
        simp only [Parlance.invoke]
        refine (gives_lift hm _).bind fun frame' τ hm' hframe => ?_
        cases hd.symm.trans (Except.mapError_ok.mp hframe)
        have hat : w.At c [frame] τ := ⟨hcov, hblocks ▸ .cons hfit .nil, hm'⟩
        have hne : c.blocks ≠ [] := hblocks ▸ List.cons_ne_nil _ _
        refine (ih.execAll hat hne hs hmind).bind fun o τ' hm'' ho => ?_
        rw [hr]
        cases o with
        | returned v => exact gives_pure hm'' (hret ▸ ho)
        | completed locals' => exact gives_pure hm'' .nil

/-! ### Statements -/

omit ih in
/-- A declaration that passed the check adds its variable to the innermost frame. -/
theorem declare_gives {name : Name} {t : Option Ty} {v : Variable} {x : Value}
    (h : w.At c locals σ) (hne : c.blocks ≠ []) (hv : c.declare name t = .ok v)
    (hx : w.premises.Fits t x) :
    w.Gives (Eval.declare w.pass locals name x) σ
      (Locals.Fit w.premises.Fits (c.extend (some v)).blocks) := by
  have hfit := h.fit
  cases hb : c.blocks with
  | nil => exact absurd hb hne
  | cons block outer =>
    rw [hb] at hfit
    obtain ⟨frame, rest, hframe, hrest, rfl⟩ := List.forall₂_cons_left_iff.mp hfit
    simp only [Eval.declare]
    refine (gives_lift h.models _).bind fun frame' τ hm hd => gives_pure hm ?_
    rw [Frame.declare_ok (Except.mapError_ok.mp hd), Context.extend, hb]
    refine .cons (List.rel_append hframe (.cons ⟨?_, ?_⟩ .nil)) hrest
    · exact (Context.name_of_declare hv).symm
    · exact (Context.type_of_declare hv).symm ▸ hx

theorem exec_declaration {name : Name} {typeName : Option Text} {value : Option Expr}
    {t : Option Ty} {v : Variable} (h : w.At c locals σ) (hne : c.blocks ≠ [])
    (hd : Declared c typeName value t) (hv : c.declare name t = .ok v)
    (hc : w.Minds (Stmt.declaration name typeName value (some v)).walk) :
    w.Gives (exec w.pass (n + 1) locals (.declaration name typeName value (some v))) σ
      (w.Comes (c.extend (some v)).blocks c.returns?) := by
  rw [Stmt.walk] at hc
  have declared {x : Value} {τ : Store} (hm : w.Models τ) (hx : w.premises.Fits t x) :
      w.Gives (do return .completed (← Eval.declare w.pass locals name x)) τ
        (w.Comes (c.extend (some v)).blocks c.returns?) :=
    (declare_gives (h.of_models hm) hne hv hx).bind fun _ _ hm' hfit => gives_pure hm' hfit
  simp only [Parlance.exec]
  cases hd with
  | unset _ => exact declared h.models .nil
  | inferred he => exact (ih.eval h he hc.tail).bind fun _ _ hm hx => declared hm hx
  | given _ he ht => exact (ih.eval h he hc.tail).bind fun _ _ hm hx => declared hm (hx.moved ht)

theorem exec_assignment {target value : Expr} {tt tv : Option Ty} (h : w.At c locals σ)
    (ha : target.isAccess = true) (ht : target.Typed c tt) (hv : value.Typed c tv)
    (htakes : Ty.Takes tt tv) (hc : w.Minds (Stmt.assignment target value).walk) :
    w.Gives (exec w.pass (n + 1) locals (.assignment target value)) σ
      (w.Comes c.blocks c.returns?) := by
  rw [Stmt.walk] at hc
  cases ht with
  | @access name v t hvar ht =>
    simp only [Parlance.exec]
    cases hb : c.blocks.find? name with
    | some v' =>
      obtain ⟨x, hx, -⟩ := exists_of_rel (h.fit.find? name) hb
      rw [Context.variableOf, hb] at hvar
      cases hvar
      rw [hx]
      refine (ih.eval h hv hc.tail.right).bind fun y τ hm hy => ?_
      exact gives_pure hm (h.fit.set hb (ht ▸ hy.moved htakes))
    | none =>
      rw [none_of_rel (h.fit.find? name) hb]
      refine (gives_read h.models _).bind fun r τ hm hr => ?_
      have hserves := h.covers.scopeVariable h.models hvar hb hr
      refine (ih.eval (h.of_models hm) hv hc.tail.right).bind fun y τ' hm' hy => ?_
      refine (gives_modify (hserves.set hm' (ht ▸ hy.moved htakes))).bind fun _ τ'' hm'' _ => ?_
      exact gives_pure hm'' h.fit
  | @member receiver owner name v t _ hr hvar ht =>
    simp only [Parlance.exec]
    rw [Expr.walk] at hc
    have hshared := hc.tail.left.head.1 owner hr.type?_eq
    refine (ih.eval h hr hc.tail.left.tail).bind fun x τ hm hx => ?_
    refine (gives_read hm _).bind fun id τ' hm' hid => ?_
    refine (gives_read hm' _).bind fun s τ'' hm'' hs => ?_
    have hserves := h.covers.memberVariable_serves hvar hshared hx hm hm' hid hs
    refine (ih.eval (h.of_models hm'') hv hc.tail.right).bind fun y υ hm''' hy => ?_
    refine (gives_modify (hserves.set hm''' (ht ▸ hy.moved htakes))).bind fun _ υ' hυ _ => ?_
    exact gives_pure hυ h.fit
  | _ => cases ha

theorem exec_succ {s : Stmt} {d : Option Variable} (h : w.At c locals σ) (hne : c.blocks ≠ [])
    (hs : Stmt.Typed c s d) (hc : w.Minds s.walk) :
    w.Gives (exec w.pass (n + 1) locals s) σ (w.Comes (c.extend d).blocks c.returns?) := by
  cases hs with
  | expression _ he =>
    simp only [Parlance.exec]
    rw [Stmt.walk] at hc
    refine (ih.eval h he hc.tail).bind fun v τ hm _ => ?_
    exact gives_pure hm h.fit
  | declaration hd hv => exact exec_declaration ih h hne hd hv hc
  | assignment ha ht hv htakes => exact exec_assignment ih h ha ht hv htakes hc
  | conditional he _ _ hthen helse =>
    simp only [Parlance.exec]
    rw [Stmt.walk] at hc
    refine (ih.eval h he hc.tail.left).bind fun v τ hm _ => ?_
    refine (gives_lift hm _).bind fun b τ' hm' _ => ?_
    cases b with
    | true => exact ih.block (h.of_models hm') .nil hthen hc.tail.right.left
    | false => exact ih.block (h.of_models hm') .nil helse hc.tail.right.right
  | forEach hv _ _ hs =>
    simp only [Parlance.exec]
    rw [Stmt.walk] at hc
    refine (ih.eval h hv hc.tail.left).bind fun v τ hm _ => ?_
    cases v with
    | iterable items => exact ih.iterate (h.of_models hm) hs hc.tail.right
    | _ => exact gives_throw _
  | whileLoop he _ hs =>
    rw [Parlance.exec]
    rw [Stmt.walk] at hc
    exact ih.loop h he hs hc.tail.left hc.tail.right
  | returning hr hv ha =>
    simp only [Parlance.exec]
    rw [Stmt.walk] at hc
    refine (ih.eval h hv hc.tail).bind fun v τ hm hh => gives_pure hm ?_
    rw [Comes, hr]
    exact hh.moved ⟨_, _, rfl, rfl, ha⟩

theorem execAll_succ {ss : List Stmt} (h : w.At c locals σ) (hne : c.blocks ≠ [])
    (hs : Stmt.AllTyped c ss) (hc : w.Minds (walkStmts ss)) :
    w.Gives (execAll w.pass (n + 1) locals ss) σ (w.Ends c.blocks c.returns?) := by
  cases hs with
  | nil =>
    rw [Parlance.execAll]
    exact gives_pure h.models h.fit.tail
  | @cons _ s d ss hs hss =>
    simp only [Parlance.execAll]
    rw [walkStmts] at hc
    refine (ih.exec h hne hs hc.left).bind fun o τ hm ho => ?_
    cases o with
    | returned v => exact gives_pure hm ho
    | completed locals' =>
      have hat : w.At (c.extend d) locals' τ := ⟨h.covers.extend d, ho, hm⟩
      have := ih.execAll hat (Context.extend_ne_nil hne) hss hc.right
      rwa [ends_extend] at this

theorem block_succ {vars : List Variable} {frame : Frame} {ss : List Stmt}
    (h : w.At c locals σ) (hf : Frame.Fits w.premises.Fits vars frame)
    (hs : Stmt.AllTyped (c.enter vars) ss) (hc : w.Minds (walkStmts ss)) :
    w.Gives (block w.pass (n + 1) locals frame ss) σ (w.Comes c.blocks c.returns?) := by
  simp only [Parlance.block]
  have hat : w.At (c.enter vars) (frame :: locals) σ :=
    ⟨h.covers.enter vars, .cons hf h.fit, h.models⟩
  refine (ih.execAll hat (List.cons_ne_nil _ _) hs hc).bind fun o τ hm ho => gives_pure hm ?_
  cases o with
  | returned v => exact ho
  | completed locals' => exact ho

omit ih in
/-- The frame of an iteration holds its integer. -/
theorem fits_item (blocks : Blocks) (name : Name) (i : Int) :
    Frame.Fits w.premises.Fits [blocks.item name] [(name, .integer i)] :=
  .cons ⟨rfl, .of_hostless nofun (Ty.admits_of_kind rfl)⟩ .nil

theorem iterate_succ {name : Name} {items : List Int} {ss : List Stmt} (h : w.At c locals σ)
    (hs : Stmt.AllTyped (c.enter [c.blocks.item name]) ss) (hc : w.Minds (walkStmts ss)) :
    w.Gives (iterate w.pass (n + 1) locals name items ss) σ (w.Comes c.blocks c.returns?) := by
  cases items with
  | nil =>
    rw [Parlance.iterate]
    exact gives_pure h.models h.fit
  | cons i items =>
    simp only [Parlance.iterate]
    refine (ih.block h (fits_item _ _ _) hs hc).bind fun o τ hm ho => ?_
    cases o with
    | returned v => exact gives_pure hm ho
    | completed locals' => exact ih.iterate ⟨h.covers, ho, hm⟩ hs hc

theorem loop_succ {e : Expr} {t : Option Ty} {ss : List Stmt} (h : w.At c locals σ)
    (he : e.Typed c t) (hs : Stmt.AllTyped (c.enter []) ss) (hce : w.Minds e.walk)
    (hcs : w.Minds (walkStmts ss)) :
    w.Gives (loop w.pass (n + 1) locals e ss) σ (w.Comes c.blocks c.returns?) := by
  simp only [Parlance.loop]
  refine (ih.eval h he hce).bind fun v τ hm _ => ?_
  refine (gives_lift hm _).bind fun b τ' hm' _ => ?_
  cases b with
  | false => exact gives_pure hm' h.fit
  | true =>
    refine (ih.block (h.of_models hm') .nil hs hcs).bind fun o τ'' hm'' ho => ?_
    cases o with
    | returned v => exact gives_pure hm'' ho
    | completed locals' => exact ih.loop ⟨h.covers, ho, hm''⟩ he hs hce hcs

end Step

/-- **Evaluation keeps to the types, whatever the fuel.** -/
theorem soundAt (w : Guest) (n : Nat) : w.SoundAt n := by
  induction n with
  | zero => exact soundAt_zero
  | succ n ih =>
    exact ⟨eval_succ ih, evalAll_succ ih, invoke_succ ih, exec_succ ih, execAll_succ ih,
      block_succ ih, iterate_succ ih, loop_succ ih⟩

end Guest

end Parlance
