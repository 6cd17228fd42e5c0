/-
What a run adds to the tables.

Bindings are made in the own table of the pass and nowhere else: variables by the fields and by
declarations outside of all blocks, functions by the methods.  Between two stores it is enough to
say which ones have been added there; all else about bindings is as it was, in every table, and only
values may have changed.

A source declares its fields in their order and then its methods in theirs.  Wherever that stops,
and for whatever reason, those before are declared and nothing else is.
-/
import Parlance.Proofs.Running.Exits

namespace Parlance

open Store (Declares AddsFunctions)

/-! ### Stores -/

/-- From one store to the other just these bindings are added to one table, at its end. All tables
keep the variables and functions they had, each with its names, its types and what it does; no table
and no type is added. -/
structure Store.Adds (top : TableId) (vs : List Variable) (rs : List Routine)
    (σ τ : Store) : Prop where
  vars : Declares top σ τ vs
  functions : AddsFunctions top σ τ rs
  registries : τ.registries = σ.registries

namespace Store

variable {top : TableId} {vs ws : List Variable} {rs qs : List Routine} {σ τ υ : Store}

theorem Changes.registries {d : Prop} (h : σ.Changes d τ) : τ.registries = σ.registries := by
  induction h with
  | trans _ _ ih ih' => exact ih'.trans ih
  | setValue σ v x =>
    unfold Store.setValue
    split <;> rfl
  | _ => rfl

/-- Where nothing can be declared, nothing is added. -/
theorem Changes.adds (h : σ.Changes False τ) : Adds top [] [] σ τ :=
  ⟨.of_eq h.vars, .of_same h.same_functions, h.registries⟩

namespace Adds

theorem refl (σ : Store) : Adds top [] [] σ σ :=
  (show Changes False σ σ from .refl σ).adds

theorem trans (h : Adds top vs rs σ τ) (h' : Adds top ws qs τ υ) :
    Adds top (vs ++ ws) (rs ++ qs) σ υ :=
  ⟨h.vars.trans h'.vars, h.functions.trans h'.functions,
    h'.registries.trans h.registries⟩

theorem trans_nil (h : Adds top vs rs σ τ) (h' : Adds top [] [] τ υ) : Adds top vs rs σ υ := by
  simpa only [List.append_nil] using h.trans h'

theorem hasTable (h : Adds top vs rs σ τ) {id : TableId} (hid : σ.HasTable id) : τ.HasTable id :=
  h.functions.hasTable hid

theorem report (σ : Store) (record : LogRecord) : Adds top [] [] σ (σ.report record) :=
  ⟨.of_eq rfl, .of_same ⟨rfl, fun _ => rfl⟩, rfl⟩

theorem addSlot (htop : σ.HasTable top) (s : Slot) :
    Adds top [s.var] [] σ (σ.modifyTable top fun t => t.addSlot s) :=
  ⟨.addSlot htop s, .of_same (.modifyTable σ top fun _ => rfl), rfl⟩

theorem addRoutine (htop : σ.HasTable top) (r : Routine) :
    Adds top [] [r] σ (σ.modifyTable top fun t => t.addRoutine r) :=
  ⟨.of_eq (σ.vars_addRoutine top r), .addRoutine htop r, rfl⟩

end Adds

end Store

/-! ### Declarations -/

/-- The variable that a pass makes for a declaration outside of all blocks. -/
def Pass.ownVariable (pass : Pass) (name : Name) : Variable :=
  ⟨name, name, none, .table pass.scope.top⟩

/-- The function that a pass makes for a method. -/
def Pass.ownRoutine (pass : Pass) (m : Method) : Routine :=
  ⟨⟨m.name, m.name, .replicate m.parameters.length (some Builtin.any.type),
    some Builtin.any.type, pass.scope.top⟩, some (.method m pass)⟩

/-- The name that is declared where a field is expected. -/
def FieldPlace.declares? : FieldPlace → Option Name
  | field f | declaration f => some f.name
  | hole (.stray s) => s.name?
  | hole .unlisted => none

/-- What a place for a field adds to the variables. -/
def Pass.fieldVariable? (pass : Pass) (p : FieldPlace) : Option Variable :=
  p.declares?.map pass.ownVariable

/-- What a place for a method adds to the functions. -/
def Pass.methodRoutine? (pass : Pass) (p : MethodPlace) : Option Routine :=
  p.method?.map pass.ownRoutine

variable {pass : Pass} {fuel : Nat} {σ τ : Store}

namespace Eval

variable {α β : Type} {top : TableId} {vs : List Variable} {rs : List Routine} {d : Prop}

/-- When the evaluation comes to an answer, it has added just these bindings to the table, which is
there. -/
def Binds (top : TableId) (vs : List Variable) (rs : List Routine) (x : Eval α) : Prop :=
  ∀ ⦃σ a τ⦄, σ.HasTable top → x σ = .ok a τ → σ.Adds top vs rs τ

theorem binds_throw (s : Stop) : Binds top vs rs (throw s : Eval α) := by
  intro σ a τ _ h
  cases h

/-- Something that declares nothing, and then a declaration. -/
theorem Keeps.binds {x : Eval α} {f : α → Eval β} {Q : α → Prop} (hx : Keeps False x Q)
    (hf : ∀ a, Binds top vs rs (f a)) : Binds top vs rs (x >>= f) := by
  intro σ b τ htop h
  obtain ⟨a, ρ, ha, hb⟩ := bind_ok.mp h
  have hadds : σ.Adds top [] [] ρ := (hx ha).1.adds
  exact hadds.trans (hf a (hadds.hasTable htop) hb)

theorem Binds.bind_pure {x : Eval α} (hx : Binds top vs rs x) (f : α → β) :
    Binds top vs rs (x >>= fun a => pure (f a)) := by
  intro σ b τ htop h
  obtain ⟨a, ρ, ha, hb⟩ := bind_ok.mp h
  cases hb
  exact hx htop ha

theorem binds_declare (pass : Pass) (name : Name) (v : Value) :
    Binds pass.scope.top [pass.ownVariable name] [] (declare pass [] name v) := by
  intro σ a τ htop h
  obtain ⟨⟨w, υ⟩, ρ, hr, hset⟩ := bind_ok.mp h
  cases hset
  obtain ⟨rfl, hd⟩ := read_eq hr
  unfold Store.declareVariable at hd
  split at hd
  · cases hd
  · cases hd
    exact .addSlot htop ⟨pass.ownVariable name, v⟩

end Eval

/-! ### Fields and methods -/

open Eval

theorem binds_declareField (pass : Pass) (fuel : Nat) (f : Field) :
    Binds pass.scope.top [pass.ownVariable f.name] [] (pass.declareField fuel f) :=
  (keeps_initialValue pass fuel _).binds fun _ => (binds_declare pass _ _).bind_pure _

/-- A field that is declared adds its variable. -/
theorem binds_declareFieldPlace (pass : Pass) (fuel : Nat) (p : FieldPlace) :
    Binds pass.scope.top (pass.fieldVariable? p).toList [] (pass.declareFieldPlace fuel p) := by
  cases p with
  | field f => exact binds_declareField pass fuel f
  | declaration f => exact binds_declareField pass fuel f
  | hole g =>
    cases g with
    | unlisted => exact binds_throw _
    | stray s =>
      simp only [Pass.declareFieldPlace, Pass.declareStray]
      split
      · exact binds_throw _
      · exact binds_throw _
      · refine (keeps_initialValue pass fuel _).binds fun _ => ?_
        rw [Pass.fieldVariable?, FieldPlace.declares?]
        cases s.name? with
        | none => exact binds_throw _
        | some name => exact (binds_declare pass _ _).bind_pure _

theorem stops_initialValue {d : Prop} (pass : Pass) (fuel : Nat) (value : Option Expr) :
    Stops d (pass.initialValue fuel value) := by
  cases value with
  | none => exact stops_pure _
  | some e => exact (stopsAt fuel).eval _ _ _

/-- One that stops adds nothing. -/
theorem stops_declareFieldPlace {d : Prop} (pass : Pass) (fuel : Nat) (p : FieldPlace) :
    Stops d (pass.declareFieldPlace fuel p) := by
  have field (f : Field) : Stops d (pass.declareField fuel f) :=
    (stops_initialValue pass fuel _).bind (keeps_initialValue pass fuel _) fun _ _ =>
      (stops_declare _ _ _ _).bind_pure _
  cases p with
  | field f => exact field f
  | declaration f => exact field f
  | hole g =>
    cases g with
    | unlisted => exact stops_throw _
    | stray s =>
      simp only [Pass.declareFieldPlace, Pass.declareStray]
      split
      · exact stops_throw _
      · exact stops_throw _
      · refine (stops_initialValue pass fuel _).bind (keeps_initialValue pass fuel _) ?_
        intro _ _
        split
        · exact stops_throw _
        · exact (stops_declare _ _ _ _).bind_pure _

/-- A method that is declared adds its function. -/
theorem binds_declareMethodPlace (pass : Pass) (p : MethodPlace) :
    Binds pass.scope.top [] (pass.methodRoutine? p).toList (pass.declareMethodPlace p) := by
  have method (m : Method) :
      Binds pass.scope.top [] [pass.ownRoutine m] (pass.declareMethod m) := by
    intro σ a τ htop h
    obtain ⟨⟨f, υ⟩, ρ, hr, hset⟩ := Eval.bind_ok.mp h
    obtain ⟨rfl, hd⟩ := read_eq hr
    cases hset
    unfold Store.declareFunction at hd
    split at hd
    · cases hd
    · cases hd
      exact (Store.Adds.addRoutine htop (pass.ownRoutine m)).trans_nil (.report _ _)
  cases p with
  | method m => exact method m
  | untyped m => exact method m
  | hole g => exact binds_throw _

theorem stops_declareMethodPlace {d : Prop} (pass : Pass) (p : MethodPlace) :
    Stops d (pass.declareMethodPlace p) := by
  have method (m : Method) : Stops d (pass.declareMethod m) :=
    (stops_read _).last fun _ _ _ _ h => by cases h
  cases p with
  | method m => exact method m
  | untyped m => exact method m
  | hole g => exact stops_throw _

/-! ### A whole source -/

theorem toList_append_filterMap {α β : Type} (f : α → Option β) (a : α) (as : List α) :
    (f a).toList ++ as.filterMap f = (a :: as).filterMap f := by
  rw [List.filterMap_cons]
  cases f a <;> rfl

/-- Declared one after the other, each has made its own bindings. -/
theorem binds_forM {α : Type} {f : α → Eval Unit} {top : TableId} (vars : α → Option Variable)
    (routines : α → Option Routine)
    (hf : ∀ a, Binds top (vars a).toList (routines a).toList (f a)) (as : List α) :
    Binds top (as.filterMap vars) (as.filterMap routines) (as.forM f) := by
  induction as with
  | nil =>
    intro σ u τ _ h
    cases h
    exact .refl σ
  | cons a as ih =>
    intro σ u τ htop h
    obtain ⟨_, ρ, ha, has⟩ := Eval.bind_ok.mp h
    have hadd := hf a htop ha
    rw [← toList_append_filterMap, ← toList_append_filterMap]
    exact hadd.trans (ih (hadd.hasTable htop) has)

/-- However declaring one after the other ends, just those before the end are declared; if it does
not stop, these are all. -/
theorem adds_forM {α : Type} {f : α → Eval Unit} {top : TableId} (vars : α → Option Variable)
    (routines : α → Option Routine)
    (hf : ∀ a, Binds top (vars a).toList (routines a).toList (f a)) (hs : ∀ a, Stops False (f a))
    (as : List α) {σ : Store} (htop : σ.HasTable top) :
    ∃ before, before <+: as ∧ ((as.forM f).stop? σ = none → before = as) ∧
      σ.Adds top (before.filterMap vars) (before.filterMap routines) ((as.forM f).after σ) := by
  induction as generalizing σ with
  | nil => exact ⟨[], List.prefix_refl _, fun _ => rfl, .refl σ⟩
  | cons a as ih =>
    have hcons : (a :: as).forM f = f a >>= fun _ => as.forM f := rfl
    rw [hcons]
    cases ha : f a σ with
    | error s ρ =>
      rw [after_bind_error ha, stop?_bind_error ha]
      exact ⟨[], List.nil_prefix, nofun, (hs a ha).adds⟩
    | ok u ρ =>
      have hadd := hf a htop ha
      obtain ⟨before, hprefix, hall, hadds⟩ := ih (hadd.hasTable htop)
      rw [after_bind_ok ha, stop?_bind_ok ha]
      refine ⟨a :: before, List.cons_prefix_cons.mpr ⟨rfl, hprefix⟩, fun h => by rw [hall h], ?_⟩
      rw [← toList_append_filterMap, ← toList_append_filterMap]
      exact hadd.trans hadds

/-- However the evaluation ends, it has added nothing. -/
def Eval.AddsNothing {α : Type} (x : Eval α) : Prop :=
  ∀ (top : TableId) (σ : Store), σ.Adds top [] [] (x.after σ)

theorem Eval.Keeps.addsNothing {α : Type} {x : Eval α} {Q : α → Prop} (hk : Keeps False x Q)
    (hs : Stops False x) : x.AddsNothing := by
  intro top σ
  rw [after]
  cases hx : x σ with
  | ok a τ => exact (hk hx).1.adds
  | error s τ => exact (hs hx).adds

theorem Eval.AddsNothing.bind {α β : Type} {x : Eval α} {f : α → Eval β} (hx : x.AddsNothing)
    (hf : ∀ a, (f a).AddsNothing) : (x >>= f).AddsNothing := by
  intro top σ
  have hfirst := hx top σ
  rw [after] at hfirst
  cases ha : x σ with
  | ok a ρ =>
    rw [ha] at hfirst
    rw [after_bind_ok ha]
    exact hfirst.trans (hf a top ρ)
  | error s ρ =>
    rw [ha] at hfirst
    rwa [after_bind_error ha]

/-- The call of the entry point adds nothing. -/
theorem addsNothing_enter (pass : Pass) (fuel : Nat) : (pass.enter fuel).AddsNothing := by
  have report (record : LogRecord) : (Eval.report record).AddsNothing :=
    fun _ σ => .report σ record
  refine ((keeps_read _).addsNothing (stops_read _)).bind fun main => (report _).bind fun _ =>
    (((keepsAt fuel).invoke main []).addsNothing ((stopsAt fuel).invoke main [])).bind fun v =>
      ((keeps_lifted _).addsNothing (stops_lift _)).bind fun _ => (report _).bind fun _ => ?_
  exact (keeps_pure (Q := fun _ => True) trivial).addsNothing (stops_pure v)

/-- **However the evaluation of a source ends, what it has added are its first fields and, once all
fields are declared, its first methods**, in the own table of the pass. If it comes to an answer,
all of them are declared. -/
theorem evaluate_adds (pass : Pass) (fuel : Nat) (s : Source) {σ : Store}
    (htop : σ.HasTable pass.scope.top) :
    ∃ fields methods, fields <+: s.fields ∧ methods <+: s.methods ∧
      (fields = s.fields ∨ methods = []) ∧
      ((pass.evaluate fuel s).stop? σ = none → fields = s.fields ∧ methods = s.methods) ∧
      σ.Adds pass.scope.top (fields.filterMap pass.fieldVariable?)
        (methods.filterMap pass.methodRoutine?) ((pass.evaluate fuel s).after σ) := by
  obtain ⟨fields, hprefix, hall, hadds⟩ := adds_forM pass.fieldVariable? (fun _ => none)
    (binds_declareFieldPlace pass fuel) (stops_declareFieldPlace pass fuel) s.fields htop
  rw [List.filterMap_none] at hadds
  rw [Pass.evaluate, Pass.declareSource, bind_assoc]
  cases hf : s.fields.forM (pass.declareFieldPlace fuel) σ with
  | error stop ρ =>
    rw [after, hf] at hadds
    rw [after_bind_error hf, stop?_bind_error hf]
    exact ⟨fields, [], hprefix, List.nil_prefix, .inr rfl,
      fun h => (Option.some_ne_none _ h).elim, hadds⟩
  | ok u ρ =>
    rw [after, hf] at hadds
    rw [after_bind_ok hf, stop?_bind_ok hf]
    obtain rfl : fields = s.fields := hall (by rw [stop?, hf])
    obtain ⟨methods, hprefix', hall', hadds'⟩ := adds_forM (fun _ => none) pass.methodRoutine?
      (binds_declareMethodPlace pass) (stops_declareMethodPlace pass) s.methods
      (hadds.hasTable htop)
    rw [List.filterMap_none] at hadds'
    have hboth := hadds.trans hadds'
    rw [List.append_nil, List.nil_append] at hboth
    refine ⟨s.fields, methods, hprefix, hprefix', .inl rfl, ?_⟩
    cases hm : s.methods.forM pass.declareMethodPlace ρ with
    | error stop υ =>
      rw [after, hm] at hboth
      rw [after_bind_error hm, stop?_bind_error hm]
      exact ⟨fun h => (Option.some_ne_none _ h).elim, hboth⟩
    | ok u υ =>
      rw [after, hm] at hboth
      rw [after_bind_ok hm, stop?_bind_ok hm]
      exact ⟨fun _ => ⟨rfl, hall' (by rw [stop?, hm])⟩,
        hboth.trans_nil (addsNothing_enter pass fuel _ υ)⟩

end Parlance
