/-
What an evaluation changes.

It writes and sets values, and it declares variables; nothing that runs binds a function.  What is
declared is known from the text.  An expression declares nothing.  A statement that completes
leaves the names of all frames as they were, and a declaration adds its own to the innermost one;
what is declared in a block is gone with the frame of the block.  Only where there is no frame
does a declaration reach a table, so whatever an expression calls leaves all tables with the
variables that they have.

This needs no check, and holds of any program.  Of the functions of the host it needs what a deed
is: that they declare nothing and call nothing; they may set any value and write any text.  It is
one induction on the fuel over all of the evaluator.
-/
import Parlance.Proofs.Running.Safe
import Parlance.Proofs.Store.Functions
import Parlance.Proofs.Store.Variables
import Parlance.Proofs.Syntax.Binders

namespace Parlance

/-! ### Changes of a store -/

/-- Texts are written and values set, and variables declared if `declares` allows it. -/
inductive Store.Changes (declares : Prop) : Store → Store → Prop
  | refl (σ : Store) : Changes declares σ σ
  | trans {σ τ υ : Store} (h : Changes declares σ τ) (h' : Changes declares τ υ) :
      Changes declares σ υ
  | write (σ : Store) (t : Text) : Changes declares σ (σ.write t)
  | setValue (σ : Store) (v : Variable) (x : Value) : Changes declares σ (σ.setValue v x)
  | declare (hd : declares) (σ : Store) (id : TableId) (s : Slot) :
      Changes declares σ (σ.modifyTable id fun t => t.addSlot s)

namespace Store.Changes

variable {declares : Prop} {σ τ : Store}

theorem mono {more : Prop} (h : Changes declares σ τ) (hd : declares → more) :
    Changes more σ τ := by
  induction h with
  | refl σ => exact .refl σ
  | trans _ _ ih ih' => exact ih.trans ih'
  | write σ t => exact .write σ t
  | setValue σ v x => exact .setValue σ v x
  | declare h σ id s => exact .declare (hd h) σ id s

/-- Setting a variable by its name is setting it, or nothing. -/
theorem setNamed (σ : Store) (id : TableId) (name : Name) (x : Value) :
    Changes declares σ (σ.setNamed id name x) := by
  rcases σ.setNamed_eq id name x with h | ⟨s, -, h⟩ <;> rw [h]
  · exact .refl σ
  · exact .setValue σ _ x

theorem same_functions (h : Changes declares σ τ) : σ.SameFunctions τ := by
  induction h with
  | refl σ => exact .refl σ
  | trans _ _ ih ih' => exact ih.trans ih'
  | write σ t => exact ⟨rfl, fun _ => rfl⟩
  | setValue σ v x => exact .setValue σ v x
  | declare _ σ id s => exact .modifyTable σ id fun _ => rfl

/-- What is written goes to the same stream throughout. -/
theorem encoding (h : Changes declares σ τ) : τ.encoding = σ.encoding := by
  induction h with
  | refl σ => rfl
  | trans _ _ ih ih' => exact ih'.trans ih
  | write σ t => rfl
  | setValue σ v x => exact σ.encoding_setValue v x
  | declare _ σ id s => rfl

/-- Where nothing can be declared, the tables keep their variables. -/
theorem vars (h : Changes False σ τ) : τ.vars = σ.vars := by
  induction h with
  | refl σ => rfl
  | trans _ _ ih ih' => exact ih'.trans ih
  | write σ t => rfl
  | setValue σ v x => exact σ.vars_setValue v x
  | declare h => exact h.elim

end Store.Changes

/-! ### Frames -/

/-- The names of the variables in the frames. -/
def Locals.names (locals : Locals) : List (List Name) :=
  locals.map (List.map Prod.fst)

/-- A declaration leaves as many frames as there were. -/
theorem Locals.eq_nil_iff_of_names {locals locals' : Locals} {o : Option Name}
    (h : locals'.names = grow o locals.names) : locals' = [] ↔ locals = [] := by
  have hlen := congrArg List.length h
  rw [length_grow, names, names, List.length_map, List.length_map] at hlen
  rw [← List.length_eq_zero_iff, hlen, List.length_eq_zero_iff]

theorem Frame.declare_ok {frame frame' : Frame} {name : Name} {v : Value}
    (h : frame.declare name v = .ok frame') : frame' = frame ++ [(name, v)] := by
  unfold declare at h
  split at h
  · cases h
  · cases h
    rfl

theorem Frame.declareAll_ok {frame frame' : Frame} {bindings : List (Name × Value)}
    (h : frame.declareAll bindings = .ok frame') : frame' = frame ++ bindings := by
  induction bindings generalizing frame with
  | nil =>
    cases h
    rw [List.append_nil]
  | cons b rest ih =>
    obtain ⟨name, v⟩ := b
    rw [declareAll] at h
    split at h
    · cases h
    · next hd => rw [ih h, declare_ok hd, List.append_assoc, List.singleton_append]

/-- If the statement completes, then with frames of these names. -/
def Outcome.Leaves (P : List (List Name) → Prop) : Outcome → Prop
  | .completed locals => P locals.names
  | .returned _ => True

/-! ### Parts of an evaluation -/

namespace Eval

variable {α β : Type} {d : Prop} {Q R : α → Prop} {S : β → Prop}

/-- When the evaluation comes to an answer, the store has changed in no other way, variables being
declared only if `d` allows it, and the answer satisfies `Q`. -/
def Keeps (d : Prop) (x : Eval α) (Q : α → Prop) : Prop :=
  ∀ ⦃σ a τ⦄, x σ = .ok a τ → σ.Changes d τ ∧ Q a

theorem Keeps.mono {d' : Prop} {x : Eval α} (h : Keeps d x Q) (hd : d → d') : Keeps d' x Q := by
  intro σ a τ hx
  exact (h hx).imp_left fun hc => hc.mono hd

theorem keeps_pure {a : α} (h : Q a) : Keeps d (pure a) Q := by
  intro σ b τ hb
  cases hb
  exact ⟨.refl σ, h⟩

theorem keeps_throw (s : Stop) : Keeps d (throw s : Eval α) Q := by
  intro σ b τ h
  cases h

theorem Keeps.bind {x : Eval α} {f : α → Eval β} (hx : Keeps d x Q)
    (hf : ∀ a, Q a → Keeps d (f a) S) : Keeps d (x >>= f) S := by
  intro σ b τ h
  obtain ⟨a, ρ, ha, hb⟩ := bind_ok.mp h
  obtain ⟨hρ, hQ⟩ := hx ha
  obtain ⟨hτ, hS⟩ := hf a hQ hb
  exact ⟨hρ.trans hτ, hS⟩

theorem keeps_lift {r : Except Fault α} (h : ∀ a, r = .ok a → Q a) : Keeps d (lift r) Q := by
  cases r with
  | ok a => exact keeps_pure (h a rfl)
  | error f => exact keeps_throw _

theorem keeps_lifted (r : Except Fault α) : Keeps d (lift r) fun _ => True :=
  keeps_lift fun _ _ => trivial

theorem read_eq {r : Store → Except BindingFault α} {σ τ : Store} {a : α}
    (h : read r σ = .ok a τ) : τ = σ ∧ r σ = .ok a := by
  change lift ((r σ).mapError .binding) σ = _ at h
  cases hr : r σ with
  | ok b =>
    rw [hr] at h
    cases h
    exact ⟨rfl, rfl⟩
  | error f =>
    rw [hr] at h
    cases h

theorem keeps_read (r : Store → Except BindingFault α) : Keeps d (read r) fun _ => True := by
  intro σ a τ h
  obtain ⟨rfl, -⟩ := read_eq h
  exact ⟨.refl _, trivial⟩

theorem keeps_modify {f : Store → Store} (hf : ∀ σ : Store, σ.Changes d (f σ)) :
    Keeps d (modify f) fun _ => True := by
  intro σ a τ h
  cases h
  exact ⟨hf σ, trivial⟩

theorem keeps_write (t : Text) : Keeps d (write t) fun _ => True := by
  intro σ a τ h
  obtain ⟨-, rfl⟩ := write_ok h
  exact ⟨.write σ t, trivial⟩

/-- What a function of the host does sets values and writes, and that is all. -/
theorem keeps_perform (deed : Deed) : Keeps d deed.perform fun _ => True := by
  induction deed with
  | answer v => exact keeps_pure trivial
  | fail cause => exact keeps_throw _
  | look id name next ih =>
    intro σ v τ h
    exact ih _ h
  | set id name v next ih =>
    exact (keeps_modify fun σ => .setNamed σ id name v).bind fun _ _ => ih
  | write t next ih => exact (keeps_write t).bind fun _ _ => ih

theorem keeps_host (action : HostAction) (arguments : List Value) :
    Keeps d (host action arguments) fun _ => True :=
  keeps_perform _

/-- A name is declared in the innermost frame, or in a table where there is no frame. -/
theorem keeps_declare (pass : Pass) (locals : Locals) (name : Name) (v : Value) :
    Keeps (locals = []) (declare pass locals name v) fun locals' =>
      locals'.names = grow (some name) locals.names := by
  cases locals with
  | cons frame outer =>
    refine Keeps.bind (keeps_lift fun frame' h => Frame.declare_ok (Except.mapError_ok.mp h)) ?_
    rintro _ rfl
    exact keeps_pure (by simp [Locals.names, grow])
  | nil =>
    intro σ a τ h
    obtain ⟨⟨w, υ⟩, ρ, hr, hset⟩ := bind_ok.mp h
    cases hset
    obtain ⟨rfl, hd⟩ := read_eq hr
    unfold Store.declareVariable at hd
    split at hd
    · cases hd
    · cases hd
      exact ⟨.declare rfl _ _ _, rfl⟩

end Eval

/-! ### The evaluator -/

open Eval

/-- With so much fuel, every function of the evaluator changes and declares no more than that. -/
structure KeepsAt (fuel : Nat) : Prop where
  eval : ∀ {d} pass locals e, Keeps d (eval pass locals fuel e) fun _ => True
  evalAll : ∀ {d} pass locals es, Keeps d (evalAll pass locals fuel es) fun _ => True
  invoke : ∀ {d} r vs, Keeps d (invoke fuel r vs) fun _ => True
  exec : ∀ pass (locals : Locals) s, Keeps (locals = [] ∧ s.declares? ≠ none)
    (exec pass fuel locals s) (Outcome.Leaves (· = grow s.declares? locals.names))
  execAll : ∀ pass (locals : Locals) ss, Keeps (locals = []) (execAll pass fuel locals ss)
    (Outcome.Leaves fun names => names.tail = locals.names.tail)
  block : ∀ {d} pass (locals : Locals) frame ss, Keeps d (block pass fuel locals frame ss)
    (Outcome.Leaves (· = locals.names))
  iterate : ∀ {d} pass (locals : Locals) name items ss,
    Keeps d (iterate pass fuel locals name items ss) (Outcome.Leaves (· = locals.names))
  loop : ∀ {d} pass (locals : Locals) e ss, Keeps d (loop pass fuel locals e ss)
    (Outcome.Leaves (· = locals.names))

namespace KeepsAt

variable {fuel : Nat} (ih : KeepsAt fuel) {d : Prop}

include ih

theorem eval_succ (pass : Pass) (locals : Locals) (e : Expr) :
    Keeps d (Parlance.eval pass locals (fuel + 1) e) fun _ => True := by
  cases e with
  | literal v t => exact keeps_pure trivial
  | group e t => exact ih.eval pass locals e
  | binary op l r t =>
    refine (ih.eval pass locals l).bind fun v _ => (keeps_lifted _).bind fun settled _ => ?_
    cases settled with
    | some b => exact keeps_pure trivial
    | none => exact (ih.eval pass locals r).bind fun _ _ => keeps_lifted _
  | access name v t =>
    simp only [Parlance.eval]
    split
    · exact keeps_pure trivial
    · exact (keeps_read _).bind fun _ _ => keeps_pure trivial
  | member r name v t =>
    exact (ih.eval pass locals r).bind fun _ _ => (keeps_read _).bind fun _ _ =>
      (keeps_read _).bind fun _ _ => keeps_pure trivial
  | call name as f t =>
    exact (ih.evalAll pass locals as).bind fun _ _ => (keeps_read _).bind fun _ _ => ih.invoke _ _
  | memberCall r name as f t =>
    exact (ih.eval pass locals r).bind fun _ _ => (ih.evalAll pass locals as).bind fun _ _ =>
      (keeps_read _).bind fun _ _ => (keeps_read _).bind fun _ _ => ih.invoke _ _
  | hole h => exact keeps_throw _

theorem evalAll_succ (pass : Pass) (locals : Locals) (es : List Expr) :
    Keeps d (Parlance.evalAll pass locals (fuel + 1) es) fun _ => True := by
  cases es with
  | nil => exact keeps_pure trivial
  | cons e es =>
    exact (ih.eval pass locals e).bind fun _ _ => (ih.evalAll pass locals es).bind fun _ _ =>
      keeps_pure trivial

theorem invoke_succ (r : Routine) (vs : List Value) :
    Keeps d (Parlance.invoke (fuel + 1) r vs) fun _ => True := by
  simp only [Parlance.invoke]
  split
  · exact keeps_throw _
  · exact (keeps_lifted _).bind fun _ _ => (keeps_lifted _).bind fun _ _ =>
      (keeps_write _).bind fun _ _ => keeps_pure trivial
  · split
    · exact (keeps_lifted _).bind fun _ _ => (keeps_write _).bind fun _ _ => keeps_host _ _
    · exact keeps_host _ _
  · -- the body has the frame of the parameters
    refine (keeps_lifted _).bind fun frame _ =>
      ((ih.execAll _ _ _).mono (absurd · (List.cons_ne_nil _ _))).bind fun outcome _ => ?_
    cases outcome with
    | returned v => exact keeps_pure trivial
    | completed locals => exact keeps_pure trivial

theorem exec_succ (pass : Pass) (locals : Locals) (s : Stmt) :
    Keeps (locals = [] ∧ s.declares? ≠ none) (Parlance.exec pass (fuel + 1) locals s)
      (Outcome.Leaves (· = grow s.declares? locals.names)) := by
  have same : Outcome.Leaves (· = grow none locals.names) (.completed locals) :=
    (grow_none locals.names).symm
  have unchanged {d : Prop} {x : Eval Outcome}
      (h : Keeps d x (Outcome.Leaves (· = locals.names))) :
      Keeps d x (Outcome.Leaves (· = grow none locals.names)) := by
    rwa [grow_none]
  cases s with
  | expression e => exact (ih.eval pass locals e).bind fun _ _ => keeps_pure same
  | declaration name typeName value v =>
    have declared (x : Value) :=
      (keeps_declare pass locals name x).mono fun h => And.intro h (Option.some_ne_none name)
    cases value with
    | none => exact (declared _).bind fun _ h => keeps_pure h
    | some e =>
      exact (ih.eval pass locals e).bind fun x _ => (declared x).bind fun _ h => keeps_pure h
  | assignment target value =>
    simp only [Parlance.exec]
    split
    · next name _ _ =>
      split
      · refine (ih.eval pass locals value).bind fun x _ => keeps_pure ?_
        exact (locals.names_set name x).trans (grow_none locals.names).symm
      · exact (keeps_read _).bind fun _ _ => (ih.eval pass locals value).bind fun x _ =>
          (keeps_modify fun σ => .setValue σ _ x).bind fun _ _ => keeps_pure same
    · exact (ih.eval pass locals _).bind fun _ _ => (keeps_read _).bind fun _ _ =>
        (keeps_read _).bind fun _ _ => (ih.eval pass locals value).bind fun x _ =>
          (keeps_modify fun σ => .setValue σ _ x).bind fun _ _ => keeps_pure same
    · exact keeps_throw _
  | conditional e ss ss' =>
    exact (ih.eval pass locals e).bind fun _ _ => (keeps_lifted _).bind fun _ _ =>
      unchanged (ih.block pass locals _ _)
  | forEach name e ss =>
    refine (ih.eval pass locals e).bind ?_
    intro v _
    split
    · exact unchanged (ih.iterate pass locals name _ ss)
    · exact keeps_throw _
  | whileLoop e ss => exact unchanged (ih.loop pass locals e ss)
  | returning e => exact (ih.eval pass locals e).bind fun _ _ => keeps_pure trivial
  | hole h => exact keeps_throw _

theorem execAll_succ (pass : Pass) (locals : Locals) (ss : List Stmt) :
    Keeps (locals = []) (Parlance.execAll pass (fuel + 1) locals ss)
      (Outcome.Leaves fun names => names.tail = locals.names.tail) := by
  cases ss with
  | nil => exact keeps_pure rfl
  | cons s ss =>
    refine ((ih.exec pass locals s).mono And.left).bind ?_
    intro outcome ho
    cases outcome with
    | returned v => exact keeps_pure trivial
    | completed locals' =>
      have hnames : locals'.names = grow s.declares? locals.names := ho
      have htail := (ih.execAll pass locals' ss).mono (Locals.eq_nil_iff_of_names hnames).mp
      rwa [hnames, tail_grow] at htail

theorem block_succ (pass : Pass) (locals : Locals) (frame : Frame) (ss : List Stmt) :
    Keeps d (Parlance.block pass (fuel + 1) locals frame ss)
      (Outcome.Leaves (· = locals.names)) := by
  refine ((ih.execAll pass (frame :: locals) ss).mono (absurd · (List.cons_ne_nil _ _))).bind ?_
  intro outcome ho
  cases outcome with
  | returned v => exact keeps_pure trivial
  | completed locals' =>
    refine keeps_pure ?_
    have htail : locals'.names.tail = locals.names := ho
    rw [← htail]
    exact List.map_tail

theorem iterate_succ (pass : Pass) (locals : Locals) (name : Name) (items : List Int)
    (ss : List Stmt) :
    Keeps d (Parlance.iterate pass (fuel + 1) locals name items ss)
      (Outcome.Leaves (· = locals.names)) := by
  cases items with
  | nil => exact keeps_pure rfl
  | cons i items =>
    refine (ih.block pass locals _ ss).bind ?_
    intro outcome ho
    cases outcome with
    | returned v => exact keeps_pure trivial
    | completed locals' =>
      have hnames : locals'.names = locals.names := ho
      exact hnames ▸ ih.iterate pass locals' name items ss

theorem loop_succ (pass : Pass) (locals : Locals) (e : Expr) (ss : List Stmt) :
    Keeps d (Parlance.loop pass (fuel + 1) locals e ss) (Outcome.Leaves (· = locals.names)) := by
  refine (ih.eval pass locals e).bind fun v _ => (keeps_lifted _).bind fun b _ => ?_
  cases b with
  | false => exact keeps_pure rfl
  | true =>
    refine (ih.block pass locals _ ss).bind ?_
    intro outcome ho
    cases outcome with
    | returned v => exact keeps_pure trivial
    | completed locals' =>
      have hnames : locals'.names = locals.names := ho
      exact hnames ▸ ih.loop pass locals' e ss

end KeepsAt

/-- **What an evaluation changes and declares is known from the text**, whatever the fuel. -/
theorem keepsAt (fuel : Nat) : KeepsAt fuel := by
  induction fuel with
  | zero => exact ⟨fun _ _ _ => keeps_throw _, fun _ _ _ => keeps_throw _,
      fun _ _ => keeps_throw _, fun _ _ _ => keeps_throw _, fun _ _ _ => keeps_throw _,
      fun _ _ _ _ => keeps_throw _, fun _ _ _ _ _ => keeps_throw _,
      fun _ _ _ _ => keeps_throw _⟩
  | succ fuel ih =>
    exact ⟨ih.eval_succ, ih.evalAll_succ, ih.invoke_succ, ih.exec_succ, ih.execAll_succ,
      ih.block_succ, ih.iterate_succ, ih.loop_succ⟩

/-! ### Fields -/

variable {d : Prop}

theorem keeps_forM {α : Type} {f : α → Eval Unit} (hf : ∀ a, Keeps d (f a) fun _ => True)
    (as : List α) : Keeps d (as.forM f) fun _ => True := by
  induction as with
  | nil => exact keeps_pure trivial
  | cons a as ih => exact (hf a).bind fun _ _ => ih

theorem keeps_initialValue (pass : Pass) (fuel : Nat) (value : Option Expr) :
    Keeps d (pass.initialValue fuel value) fun _ => True := by
  cases value with
  | none => exact keeps_pure trivial
  | some e => exact (keepsAt fuel).eval _ _ _

/-- Outside of all blocks a field is declared in a table. -/
theorem keeps_declareFieldPlace (pass : Pass) (fuel : Nat) (p : FieldPlace) :
    Keeps True (pass.declareFieldPlace fuel p) fun _ => True := by
  have field (f : Field) : Keeps True (pass.declareField fuel f) fun _ => True :=
    (keeps_initialValue pass fuel _).bind fun _ _ =>
      ((keeps_declare _ _ _ _).mono fun _ => trivial).bind fun _ _ => keeps_pure trivial
  cases p with
  | field f => exact field f
  | declaration f => exact field f
  | hole h =>
    cases h with
    | unlisted => exact keeps_throw _
    | stray s =>
      simp only [Pass.declareFieldPlace, Pass.declareStray]
      split
      · exact keeps_throw _
      · exact keeps_throw _
      · refine (keeps_initialValue pass fuel _).bind ?_
        intro _ _
        split
        · exact keeps_throw _
        · exact ((keeps_declare _ _ _ _).mono fun _ => trivial).bind fun _ _ => keeps_pure trivial

end Parlance
