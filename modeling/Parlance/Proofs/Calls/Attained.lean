/-
Methods are bound under their own keys.

A function is found by its name and the number of its arguments, and beside it stands what it does.
If that is to run a method, nothing in a table says that the method has as many parameters as the
function.  It has in every store that a host can come to.  Methods are only bound by a pass that
evaluates a source, and it makes the key from the method; what a host binds runs something of the
host's, and what a check binds runs nothing.

So the stores are given by all that a host can do: what it makes and declares on its own, and what
it has a pass do, which may pass or fail, come to an answer or stop.
-/
import Parlance.Proofs.Calls.Methods
import Parlance.Proofs.Checking.Confined
import Parlance.Proofs.Store.Registries

namespace Parlance

/-- If the function runs a method, it has the key of the method. -/
def Routine.Matched (r : Routine) : Prop :=
  ∀ m pass, r.implementation? = some (.method m pass) → m.HasKey r.function

namespace Store

/-- A host can come to the store, by what it makes and declares and by what its passes do, however
that ends. The functions that it declares run no methods of a pass. -/
inductive Attained : Store → Prop
  | opened (e : Encoding) : Attained (opened e)
  -- what a host makes
  | newTable {σ : Store} (h : Attained σ) : Attained σ.newTable.2
  | newRegistry {σ : Store} (h : Attained σ) : Attained σ.newRegistry.2
  | register {σ τ : Store} {r : RegistryId} {name : Text} {targetName : Option Text}
      {members : Option TableId} {t : Ty} (h : Attained σ)
      (hr : σ.register r name targetName members = .ok (t, τ)) : Attained τ
  | newObject {σ : Store} (h : Attained σ) (type : Ty) (members : TableId) :
      Attained (σ.newObject type members).2
  | checker {σ : Store} (h : Attained σ) (host : Host) : Attained (host.checker σ).2
  | evaluator {σ : Store} (h : Attained σ) (host : Host) : Attained (host.evaluator σ).2
  -- what it declares and changes
  | declareVariable {σ τ : Store} {id : TableId} {name : Name} {type : Option Ty} {x : Value}
      {targetName : Option Text} {v : Variable} (h : Attained σ)
      (hd : σ.declareVariable id name type x targetName = .ok (v, τ)) : Attained τ
  | declareFunction {σ τ : Store} {id : TableId} {name : Name} {types : List (Option Ty)}
      {result : Option Ty} {implementation? : Option Implementation} {targetName : Option Text}
      {f : Function} (h : Attained σ)
      (hd : σ.declareFunction id name types result implementation? targetName = .ok (f, τ))
      (hown : ∀ m pass, implementation? ≠ some (.method m pass)) : Attained τ
  | setValue {σ : Store} (h : Attained σ) (v : Variable) (x : Value) : Attained (σ.setValue v x)
  | write {σ : Store} (h : Attained σ) (t : Text) : Attained (σ.write t)
  | report {σ : Store} (h : Attained σ) (record : LogRecord) : Attained (σ.report record)
  -- what it has a pass do
  | check {σ : Store} {pass : Pass} (h : Attained σ) (htop : σ.HasTable pass.scope.top)
      (s : Source) : Attained (pass.check s σ).store
  | checkStmt {σ : Store} {pass : Pass} (h : Attained σ) (htop : σ.HasTable pass.scope.top)
      (s : Stmt) : Attained (pass.checkStmt s σ).store
  | evaluate {σ : Store} {pass : Pass} (h : Attained σ) (htop : σ.HasTable pass.scope.top)
      (s : Source) (fuel : Nat) : Attained ((pass.evaluate fuel s).after σ)
  | eval {σ : Store} (h : Attained σ) (pass : Pass) (e : Expr) (fuel : Nat) :
      Attained ((eval pass [] fuel e).after σ)
  | execAll {σ : Store} (h : Attained σ) (pass : Pass) (ss : List Stmt) (fuel : Nat) :
      Attained ((execAll pass fuel [] ss).after σ)
  | invoke {σ : Store} (h : Attained σ) (r : Routine) (vs : List Value) (fuel : Nat) :
      Attained ((invoke fuel r vs).after σ)

/-- Every function that runs a method has its key. -/
def Matched (σ : Store) : Prop :=
  ∀ r, σ.HasRoutine r → r.Matched

end Store

/-! ### Functions that are bound -/

theorem Routine.matched_of_own {f : Function} {implementation? : Option Implementation}
    (h : ∀ m pass, implementation? ≠ some (.method m pass)) :
    Routine.Matched ⟨f, implementation?⟩ := by
  intro m pass hm
  exact absurd hm (h m pass)

theorem Pass.matched_ownRoutine (pass : Pass) (m : Method) : (pass.ownRoutine m).Matched := by
  intro m' pass' hm
  cases hm
  exact ⟨rfl, List.length_replicate⟩

theorem Pass.matched_methodRoutines (pass : Pass) (ps : List MethodPlace) :
    ∀ r ∈ ps.filterMap pass.methodRoutine?, r.Matched := by
  intro r hr
  obtain ⟨p, -, hp⟩ := List.mem_filterMap.mp hr
  obtain ⟨m, -, rfl⟩ := Option.map_eq_some_iff.mp hp
  exact pass.matched_ownRoutine m

/-- What a check binds runs nothing. -/
theorem MethodPlace.Makes.matched {top : TableId} {ps : List MethodPlace} {rs : List Routine}
    (h : MethodPlace.Makes top ps rs) : ∀ r ∈ rs, r.Matched := by
  intro r hr m pass hm
  rw [h.implementation r hr] at hm
  cases hm

/-- What runs changes no function, whether it comes to an answer or stops. -/
theorem Eval.Keeps.same_after {α : Type} {d : Prop} {x : Eval α} {Q : α → Prop}
    (hk : Keeps d x Q) (hs : Stops d x) (σ : Store) : σ.SameFunctions (x.after σ) := by
  rw [after]
  cases hx : x σ with
  | ok a τ => exact (hk hx).1.same_functions
  | error s τ => exact (hs hx).same_functions

/-! ### The stores -/

namespace Store

variable {σ τ : Store}

theorem Gains.functions {top : TableId} {ss : List Slot} {rs : List Routine}
    (h : σ.Gains top ss rs τ) : AddsFunctions top σ τ rs :=
  ⟨h.size, fun id hid => congrArg Table.routines (h.other id hid), by rw [h.own]⟩

theorem matched_opened (e : Encoding) : (opened e).Matched := by
  rintro r ⟨id, hr⟩
  rw [table_opened e id] at hr
  cases hr

namespace Matched

theorem of_routines (h : σ.Matched) (hr : ∀ id, (τ.table id).routines = (σ.table id).routines) :
    τ.Matched := by
  rintro r ⟨id, hmem⟩
  rw [hr id] at hmem
  exact h r ⟨id, hmem⟩

theorem of_same (h : σ.Matched) (hs : σ.SameFunctions τ) : τ.Matched :=
  h.of_routines hs.routines

theorem of_table (h : σ.Matched) (ht : ∀ id, τ.table id = σ.table id) : τ.Matched :=
  h.of_routines fun id => congrArg Table.routines (ht id)

theorem adds (h : σ.Matched) {top : TableId} {rs : List Routine} (ha : AddsFunctions top σ τ rs)
    (hrs : ∀ r ∈ rs, r.Matched) : τ.Matched :=
  ha.forall_routine h hrs

theorem newPass (h : σ.Matched) (parent : Option Scope) (registry : Option RegistryId)
    {print? : Option Implementation} (hprint : ∀ m pass, print? ≠ some (.method m pass)) :
    (σ.newPass parent registry print?).2.Matched :=
  (σ.newPass_spec parent registry print?).forall_routine h (Routine.matched_of_own hprint)

theorem register (h : σ.Matched) {r : RegistryId} {name : Text} {targetName : Option Text}
    {members : Option TableId} {t : Ty} (hr : σ.register r name targetName members = .ok (t, τ)) :
    τ.Matched := by
  rcases σ.register_cases r name targetName members with
    ⟨_, -, heq⟩ | ⟨-, t', τ', heq, -, -, -, htable, -⟩
  · rw [heq] at hr
    cases hr
  · rw [heq] at hr
    cases hr
    exact h.of_table htable

theorem declareVariable (h : σ.Matched) {id : TableId} {name : Name} {type : Option Ty} {x : Value}
    {targetName : Option Text} {v : Variable}
    (hd : σ.declareVariable id name type x targetName = .ok (v, τ)) : τ.Matched := by
  unfold Store.declareVariable at hd
  split at hd
  · cases hd
  · cases hd
    exact h.of_same (.modifyTable σ id fun _ => rfl)

theorem declareFunction (h : σ.Matched) {id : TableId} {name : Name} {types : List (Option Ty)}
    {result : Option Ty} {implementation? : Option Implementation} {targetName : Option Text}
    {f : Function}
    (hd : σ.declareFunction id name types result implementation? targetName = .ok (f, τ))
    (hown : ∀ m pass, implementation? ≠ some (.method m pass)) : τ.Matched := by
  unfold Store.declareFunction at hd
  split at hd
  · cases hd
  · cases hd
    rintro r ⟨other, hr⟩
    -- A table that is not there stays away, and then nothing has been bound.
    rcases σ.table_modifyTable id other _ with he | ⟨rfl, -, he⟩
    · rw [he] at hr
      exact h r ⟨other, hr⟩
    · rw [he] at hr
      rcases List.mem_append.mp hr with hr | hr
      · exact h r ⟨other, hr⟩
      · rw [List.mem_singleton.mp hr]
        exact Routine.matched_of_own hown

theorem check (h : σ.Matched) {pass : Pass} (htop : σ.HasTable pass.scope.top) (s : Source) :
    (pass.check s σ).store.Matched := by
  obtain ⟨_, _, _, _, -, -, -, hmakes, hgains, -⟩ := s.confined htop
  exact h.adds hgains.functions hmakes.matched

theorem checkStmt (h : σ.Matched) {pass : Pass} (htop : σ.HasTable pass.scope.top) (s : Stmt) :
    (pass.checkStmt s σ).store.Matched := by
  have hconfined := s.confined htop
  cases hverdict : (pass.checkStmt s σ).verdict with
  | ok u =>
    obtain ⟨_, hgains, -⟩ := hconfined.passed hverdict
    exact h.adds hgains.functions (List.forall_mem_nil _)
  | error f =>
    rw [hconfined.refused f hverdict]
    exact h

/-- The methods that an evaluation has bound by its end are all there is of new functions. -/
theorem evaluate (h : σ.Matched) {pass : Pass} (htop : σ.HasTable pass.scope.top) (s : Source)
    (fuel : Nat) : ((pass.evaluate fuel s).after σ).Matched := by
  obtain ⟨_, methods, -, -, -, -, hadds⟩ := evaluate_adds pass fuel s htop
  exact h.adds hadds.functions (pass.matched_methodRoutines methods)

/-- Fields bind no function. -/
theorem declareFields (h : σ.Matched) {pass : Pass} {fuel : Nat} {ps : List FieldPlace}
    (hd : ps.forM (pass.declareFieldPlace fuel) σ = .ok () τ) : τ.Matched :=
  h.of_same (stable_declareFields pass fuel ps hd)

theorem declareSource (h : σ.Matched) {pass : Pass} (htop : σ.HasTable pass.scope.top)
    {fuel : Nat} {s : Source} (hd : pass.declareSource fuel s σ = .ok () τ) : τ.Matched := by
  obtain ⟨_, ρ, hfields, hmethods⟩ := Eval.bind_ok.mp hd
  have hsame := stable_declareFields pass fuel s.fields hfields
  have hadds := binds_forM (fun _ => none) pass.methodRoutine?
    (binds_declareMethodPlace pass) s.methods (hsame.hasTable htop) hmethods
  exact (h.of_same hsame).adds hadds.functions (pass.matched_methodRoutines s.methods)

end Matched

/-- **However a host came to the store, each method in it is bound under its own key.** -/
theorem Attained.matched (h : σ.Attained) : σ.Matched := by
  induction h with
  | opened e => exact matched_opened e
  | newTable _ ih => exact ih.of_table (table_newTable_eq _)
  | newRegistry _ ih => exact ih.of_table fun id => table_newBuiltins Builtin.all _ id
  | register _ hr ih => exact ih.register hr
  | newObject _ _ _ ih => exact ih.of_table fun _ => rfl
  | checker _ host ih => exact ih.newPass host.parent host.registry nofun
  | evaluator _ host ih => exact ih.newPass host.parent host.registry nofun
  | declareVariable _ hd ih => exact ih.declareVariable hd
  | declareFunction _ hd hown ih => exact ih.declareFunction hd hown
  | setValue _ v x ih => exact ih.of_same (.setValue _ v x)
  | write _ _ ih => exact ih.of_table fun _ => rfl
  | report _ _ ih => exact ih.of_table fun _ => rfl
  | check _ htop s ih => exact ih.check htop s
  | checkStmt _ htop s ih => exact ih.checkStmt htop s
  | evaluate _ htop s fuel ih => exact ih.evaluate htop s fuel
  | eval _ pass e fuel ih =>
    exact ih.of_same (((keepsAt fuel).eval (d := False) pass [] e).same_after
      ((stopsAt fuel).eval pass [] e) _)
  | execAll _ pass ss fuel ih =>
    exact ih.of_same (((keepsAt fuel).execAll pass [] ss).same_after
      ((stopsAt fuel).execAll pass [] ss) _)
  | invoke _ r vs fuel ih =>
    exact ih.of_same (((keepsAt fuel).invoke (d := False) r vs).same_after
      ((stopsAt fuel).invoke r vs) _)

end Store

end Parlance
