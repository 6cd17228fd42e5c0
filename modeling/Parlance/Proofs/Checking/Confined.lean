/-
What a check declares.

A check writes in one table only, that of its own scope, and there it only adds bindings at the end:
the variable of a declaration that passes, the variables of the first fields of a source, and once
all of these are there the functions of its first methods.  A method is declared before its body is
looked at, so the function of a method whose body fails is there as well.  Everything else is left
as it is, by a check that passes and by one that fails, at whatever depth.
-/
import Parlance.Proofs.Calls.Methods
import Parlance.Proofs.Checking.Bare
import Parlance.Proofs.Checking.Certified

namespace Parlance

/-! ### Bindings that are added -/

/-- From one store to the other these variables, with their values, and these functions are added to
one table, at its end. All else is as it was, but for the log. -/
structure Store.Gains (top : TableId) (ss : List Slot) (rs : List Routine) (σ τ : Store) :
    Prop where
  size : τ.tables.size = σ.tables.size
  own : τ.table top = ⟨(σ.table top).slots ++ ss, (σ.table top).routines ++ rs⟩
  other : ∀ id, id ≠ top → τ.table id = σ.table id
  registries : τ.registries = σ.registries
  objects : τ.objects = σ.objects
  output : τ.output = σ.output
  encoding : τ.encoding = σ.encoding

namespace Store.Gains

variable {top : TableId} {ss ts : List Slot} {rs qs : List Routine} {σ τ υ : Store}

theorem refl (top : TableId) (σ : Store) : Gains top [] [] σ σ :=
  ⟨rfl, by rw [List.append_nil, List.append_nil], fun _ _ => rfl, rfl, rfl, rfl, rfl⟩

theorem trans (h : Gains top ss rs σ τ) (h' : Gains top ts qs τ υ) :
    Gains top (ss ++ ts) (rs ++ qs) σ υ where
  size := h'.size.trans h.size
  own := by rw [h'.own, h.own, List.append_assoc, List.append_assoc]
  other id hid := (h'.other id hid).trans (h.other id hid)
  registries := h'.registries.trans h.registries
  objects := h'.objects.trans h.objects
  output := h'.output.trans h.output
  encoding := h'.encoding.trans h.encoding

theorem report (h : Gains top ss rs σ τ) (record : LogRecord) :
    Gains top ss rs σ (τ.report record) :=
  ⟨h.size, h.own, h.other, h.registries, h.objects, h.output, h.encoding⟩

theorem hasTable (h : Gains top ss rs σ τ) {id : TableId} (hid : σ.HasTable id) :
    τ.HasTable id := by
  rwa [HasTable, h.size]

theorem modifyTable (htop : σ.HasTable top) {f : Table → Table}
    (hf : ∀ t, f t = ⟨t.slots ++ ss, t.routines ++ rs⟩) :
    Gains top ss rs σ (σ.modifyTable top f) where
  size := by simp [Store.modifyTable]
  own := by rw [table_modifyTable_self htop, hf]
  other id hid := σ.table_modifyTable_of_ne hid f
  registries := rfl
  objects := rfl
  output := rfl
  encoding := rfl

theorem addSlot (htop : σ.HasTable top) (s : Slot) :
    Gains top [s] [] σ (σ.modifyTable top fun t => t.addSlot s) :=
  modifyTable htop fun t => by rw [List.append_nil, Table.addSlot]

theorem addRoutine (htop : σ.HasTable top) (r : Routine) :
    Gains top [] [r] σ (σ.modifyTable top fun t => t.addRoutine r) :=
  modifyTable htop fun t => by rw [List.append_nil, Table.addRoutine]

end Store.Gains

/-- A check makes these variables for the fields in these places: one for each, under its name, and
without a value. -/
structure FieldPlace.Makes (top : TableId) (ps : List FieldPlace) (ss : List Slot) : Prop where
  names : ps.map (fun p => p.field?.map Field.name) = ss.map fun s => some s.var.name
  home : ∀ s ∈ ss, s.var.home = .table top
  value : ∀ s ∈ ss, s.value = .nil

/-- A check makes these functions for the methods in these places: one for each, under its key, and
without anything to do. -/
structure MethodPlace.Makes (top : TableId) (ps : List MethodPlace) (rs : List Routine) :
    Prop where
  keys : ps.map MethodPlace.key? = rs.map fun r => some r.key
  home : ∀ r ∈ rs, r.function.home = top
  implementation : ∀ r ∈ rs, r.implementation? = none

theorem FieldPlace.makes_nil (top : TableId) : FieldPlace.Makes top [] [] :=
  ⟨rfl, List.forall_mem_nil _, List.forall_mem_nil _⟩

theorem MethodPlace.makes_nil (top : TableId) : MethodPlace.Makes top [] [] :=
  ⟨rfl, List.forall_mem_nil _, List.forall_mem_nil _⟩

theorem FieldPlace.Makes.append {top : TableId} {ps qs : List FieldPlace} {ss ts : List Slot}
    (h : Makes top ps ss) (h' : Makes top qs ts) : Makes top (ps ++ qs) (ss ++ ts) where
  names := by rw [List.map_append, List.map_append, h.names, h'.names]
  home := List.forall_mem_append.mpr ⟨h.home, h'.home⟩
  value := List.forall_mem_append.mpr ⟨h.value, h'.value⟩

theorem MethodPlace.Makes.append {top : TableId} {ps qs : List MethodPlace} {rs rs' : List Routine}
    (h : Makes top ps rs) (h' : Makes top qs rs') : Makes top (ps ++ qs) (rs ++ rs') where
  keys := by rw [List.map_append, List.map_append, h.keys, h'.keys]
  home := List.forall_mem_append.mpr ⟨h.home, h'.home⟩
  implementation := List.forall_mem_append.mpr ⟨h.implementation, h'.implementation⟩

variable {pass : Pass} {σ τ : Store}

/-! ### Statements -/

@[simp] theorem Stmt.declares?_bare (s : Stmt) : s.bare.declares? = s.declares? := by
  cases s <;> rfl

/-- Where a statement passes the check, the variable it declares bears its name, and it declares one
just if it is a declaration. -/
theorem Stmt.name_of_check {c : Context} {s s' : Stmt} {declared : Option Variable}
    (h : s.check c = (s', .ok declared)) : declared.map Variable.name = s.declares? := by
  have hbare : s'.declares? = s.declares? := by
    rw [← s'.declares?_bare, ← s.declares?_bare, ← s.check_bare (c := c), h]
  rw [← hbare]
  cases Stmt.check_typed h with
  | declaration hd hv => rw [Option.map_some, Context.name_of_declare hv, Stmt.declares?]
  | _ => rfl

/-- What the check of a statement declares, outside of all blocks, from one store to the other. -/
structure Stmt.Confined (s : Stmt) (pass : Pass) (σ : Store) (verdict : Except Fault Unit)
    (τ : Store) : Prop where
  /-- A statement that passes adds its own name to the scope if it is a declaration, and otherwise
  nothing. -/
  passed : verdict = .ok () →
    ∃ ss : List Slot, σ.Gains pass.scope.top ss [] τ ∧
      (ss.map fun x => x.var.name) = s.declares?.toList ∧
      ∀ x ∈ ss, x.var.home = .table pass.scope.top ∧ x.value = .nil
  /-- One that does not pass adds nothing. -/
  refused : ∀ f, verdict = .error f → τ = σ

theorem Stmt.confined (s : Stmt) (htop : σ.HasTable pass.scope.top) :
    s.Confined pass σ (pass.checkStmt s σ).verdict (pass.checkStmt s σ).store := by
  refine ⟨fun h => ?_, fun f h => ?_⟩
  · unfold Pass.checkStmt at h ⊢
    split at h
    · next s' v hv =>
      refine ⟨[⟨v, .nil⟩], .addSlot htop _, ?_, List.forall_mem_singleton.mpr ⟨?_, rfl⟩⟩
      · rw [← name_of_check hv]
        rfl
      · cases check_typed hv with
        | declaration _ hd => exact Context.home_of_declare hd rfl
    · next s' hs =>
      refine ⟨[], .refl _ σ, ?_, List.forall_mem_nil _⟩
      rw [← name_of_check hs]
      rfl
    · cases h
  · unfold Pass.checkStmt at h ⊢
    split at h <;> cases h
    rfl

/-! ### Fields and methods -/

/-- How the check of a field ends: it makes the variable, or nothing. -/
inductive Pass.FieldOutcome (pass : Pass) (σ : Store) (p : FieldPlace) : Checked FieldPlace → Prop
  | made {p' : FieldPlace} {ss : List Slot} {τ : Store} (h : FieldPlace.Makes pass.scope.top [p] ss)
      (hg : σ.Gains pass.scope.top ss [] τ) : FieldOutcome pass σ p ⟨p', .ok (), τ⟩
  | refused {p' : FieldPlace} {f : Fault} : FieldOutcome pass σ p ⟨p', .error f, σ⟩

/-- How the check of a method ends: it makes nothing, or it makes the function and then depends on
the body. -/
inductive Pass.MethodOutcome (pass : Pass) (σ : Store) : MethodPlace → Checked MethodPlace → Prop
  | refused {p : MethodPlace} {f : Fault} : MethodOutcome pass σ p ⟨p, .error f, σ⟩
  | made {m : Method} {p' : MethodPlace} {types : List Ty} {result : Ty} {rs : List Routine}
      {τ : Store} (hsignature : m.signature (pass.context τ) = .ok (types, result))
      (h : MethodPlace.Makes pass.scope.top [.method m] rs) (hg : σ.Gains pass.scope.top [] rs τ) :
      MethodOutcome pass σ (.method m)
        ⟨p', (m.checkBody (pass.context τ) types result).2, τ⟩

theorem Pass.checkFieldPlace_outcome (p : FieldPlace) (htop : σ.HasTable pass.scope.top) :
    pass.FieldOutcome σ p (pass.checkFieldPlace p σ) := by
  have field {q : FieldPlace} {f : Field} (g : Field → FieldPlace) (hq : q.field? = some f) :
      pass.FieldOutcome σ q ((pass.checkField f σ).map g) := by
    unfold checkField
    dsimp only
    split
    · next v hv =>
      obtain ⟨t, -, hd⟩ := Except.bind_ok.mp hv
      refine .made ⟨?_, List.forall_mem_singleton.mpr ?_, List.forall_mem_singleton.mpr rfl⟩
        (.addSlot htop ⟨v, .nil⟩)
      · rw [List.map_singleton, List.map_singleton, hq, Option.map_some,
          Context.name_of_declare hd]
      · exact Context.home_of_declare hd rfl
    · exact .refused
  cases p with
  | field f => exact field .field rfl
  | declaration f => exact field .declaration rfl
  | hole h => exact .refused

theorem Method.signature_congr {c d : Context} (h : c.SameTypes d) (m : Method) :
    m.signature d = m.signature c := by
  simp only [signature, h.types, h.resultType]

theorem Pass.checkMethodPlace_outcome (p : MethodPlace) (htop : σ.HasTable pass.scope.top) :
    pass.MethodOutcome σ p (pass.checkMethodPlace p σ) := by
  cases p with
  | method m =>
    simp only [checkMethodPlace, checkMethod]
    split
    · exact .refused
    · next types result hsignature =>
      split
      · exact .refused
      · next function τ hd =>
        unfold Store.declareFunction at hd
        split at hd
        · cases hd
        · cases hd
          have harity := (Method.signature_ok hsignature).1
          refine .made (.trans ?_ hsignature)
            ⟨?_, List.forall_mem_singleton.mpr rfl, List.forall_mem_singleton.mpr rfl⟩
            (.report (.addRoutine htop _) _)
          · refine m.signature_congr ?_
            exact .of_registries rfl rfl
          · simp [MethodPlace.key?, MethodPlace.method?, Routine.key, Function.arity, harity]
  | untyped m => exact .refused
  | hole h => exact .refused

/-! ### One tree after the other -/

/-- How far the check of a list comes: through all of it, or up to the first tree that fails. -/
inductive CheckedUpTo {α : Type} (check : α → Store → Checked α) (I : List α → Store → Prop)
    (as : List α) : Checked (List α) → Prop
  | all {trees : List α} {τ : Store} (h : I as τ) : CheckedUpTo check I as ⟨trees, .ok (), τ⟩
  | stopped {before after trees : List α} {a : α} {f : Fault} {τ : Store}
      (he : as = before ++ a :: after) (h : I before τ) (hf : (check a τ).verdict = .error f) :
      CheckedUpTo check I as ⟨trees, .error f, (check a τ).store⟩

theorem checkInOrder_upTo {α : Type} {check : α → Store → Checked α} {I : List α → Store → Prop}
    (hI : ∀ before a τ, I before τ → (check a τ).verdict = .ok () →
      I (before ++ [a]) (check a τ).store)
    (as : List α) (hσ : I [] σ) : CheckedUpTo check I as (checkInOrder check as σ) := by
  -- What has been checked is put in front of `I`, so the hypothesis speaks of the rest alone.
  induction as generalizing I σ with
  | nil => exact .all hσ
  | cons a as ih =>
    have hstep := hI [] a σ hσ
    have hstop (f : Fault) (hf : (check a σ).verdict = .error f) (trees : List α) :
        CheckedUpTo check I (a :: as) ⟨trees, .error f, (check a σ).store⟩ :=
      .stopped (List.nil_append _).symm hσ hf
    rw [checkInOrder]
    rcases hc : check a σ with ⟨a', _ | _, τ⟩
    · rw [hc] at hstop
      exact hstop _ rfl _
    · rw [hc] at hstep
      have hrest := ih (I := fun before => I (a :: before)) (fun before => hI (a :: before))
        (hstep rfl)
      dsimp only
      generalize checkInOrder check as τ = rest at hrest
      cases hrest with
      | all h => exact .all h
      | stopped he h hf => exact .stopped (congrArg (a :: ·) he) h hf

/-! ### Sources -/

/-- How the check of a source ends once it has declared these fields and methods: it passes, or it
stops at the entry point, at the next field, at the next method, or in the body of the last one. -/
inductive Pass.CheckEnds (pass : Pass) (s : Source) :
    List FieldPlace → List MethodPlace → Except Fault Unit → Store → Prop
  | passed {τ : Store} : CheckEnds pass s s.fields s.methods (.ok ()) τ
  | entryPoint {f : Fault} {τ : Store} (h : s.checkEntryPoint = .error f) :
      CheckEnds pass s [] [] (.error f) τ
  | field {before after : List FieldPlace} {p : FieldPlace} {f : Fault} {τ : Store}
      (he : s.fields = before ++ p :: after) (h : (pass.checkFieldPlace p τ).verdict = .error f) :
      CheckEnds pass s before [] (.error f) τ
  | method {before after : List MethodPlace} {p : MethodPlace} {f : Fault} {τ : Store}
      (he : s.methods = before ++ p :: after) (h : pass.checkMethodPlace p τ = ⟨p, .error f, τ⟩) :
      CheckEnds pass s s.fields before (.error f) τ
  | body {before after : List MethodPlace} {m : Method} {types : List Ty} {result : Ty} {f : Fault}
      {τ : Store} (he : s.methods = before ++ .method m :: after)
      (hsignature : m.signature (pass.context τ) = .ok (types, result))
      (h : (m.checkBody (pass.context τ) types result).2 = .error f) :
      CheckEnds pass s s.fields (before ++ [.method m]) (.error f) τ

/-- The check of a source that leads from one store to the other declares the first of its fields
and then the first of its methods, up to where it ends. -/
def Source.Confined (s : Source) (pass : Pass) (σ : Store) (verdict : Except Fault Unit)
    (τ : Store) : Prop :=
  ∃ fields methods ss rs, fields <+: s.fields ∧ methods <+: s.methods ∧
    FieldPlace.Makes pass.scope.top fields ss ∧ MethodPlace.Makes pass.scope.top methods rs ∧
    σ.Gains pass.scope.top ss rs τ ∧ pass.CheckEnds s fields methods verdict τ

/-- The fields in these places have been declared, between the two stores, and nothing else. -/
def Pass.FieldsMade (pass : Pass) (σ : Store) (ps : List FieldPlace) (τ : Store) : Prop :=
  ∃ ss, FieldPlace.Makes pass.scope.top ps ss ∧ σ.Gains pass.scope.top ss [] τ

/-- The methods in these places have been declared. -/
def Pass.MethodsMade (pass : Pass) (σ : Store) (ps : List MethodPlace) (τ : Store) : Prop :=
  ∃ rs, MethodPlace.Makes pass.scope.top ps rs ∧ σ.Gains pass.scope.top [] rs τ

theorem Pass.checkFields_upTo (ps : List FieldPlace) (htop : σ.HasTable pass.scope.top) :
    CheckedUpTo pass.checkFieldPlace (pass.FieldsMade σ) ps
      (checkInOrder pass.checkFieldPlace ps σ) := by
  refine checkInOrder_upTo (fun before p τ hτ hp => ?_) ps ⟨[], FieldPlace.makes_nil _, .refl _ σ⟩
  obtain ⟨ss, hss, hg⟩ := hτ
  have hout := pass.checkFieldPlace_outcome p (hg.hasTable htop)
  generalize pass.checkFieldPlace p τ = r at hout hp
  cases hout with
  | made hmakes hg' => exact ⟨_, hss.append hmakes, hg.trans hg'⟩
  | refused => cases hp

theorem Pass.checkMethods_upTo (ps : List MethodPlace) (htop : σ.HasTable pass.scope.top) :
    CheckedUpTo pass.checkMethodPlace (pass.MethodsMade σ) ps
      (checkInOrder pass.checkMethodPlace ps σ) := by
  refine checkInOrder_upTo (fun before p τ hτ hp => ?_) ps ⟨[], MethodPlace.makes_nil _, .refl _ σ⟩
  obtain ⟨rs, hrs, hg⟩ := hτ
  have hout := pass.checkMethodPlace_outcome p (hg.hasTable htop)
  generalize pass.checkMethodPlace p τ = r at hout hp
  cases hout with
  | refused => cases hp
  | made _ hmakes hg' => exact ⟨_, hrs.append hmakes, hg.trans hg'⟩

/-- The check of a field that fails leaves the store as it is. -/
theorem Pass.store_of_checkFieldPlace {p : FieldPlace} {f : Fault}
    (htop : σ.HasTable pass.scope.top) (h : (pass.checkFieldPlace p σ).verdict = .error f) :
    (pass.checkFieldPlace p σ).store = σ := by
  have hout := pass.checkFieldPlace_outcome p htop
  generalize pass.checkFieldPlace p σ = r at hout h
  cases hout with
  | made => cases h
  | refused => rfl

/-- Where the methods before this one have been declared, its check fails before it is declared or
in its body. -/
theorem Pass.checkEnds_method {s : Source} {before after : List MethodPlace} {p : MethodPlace}
    {f : Fault} {rs : List Routine} (htop : τ.HasTable pass.scope.top)
    (he : s.methods = before ++ p :: after)
    (hrs : MethodPlace.Makes pass.scope.top before rs) (hg : σ.Gains pass.scope.top [] rs τ)
    (hf : (pass.checkMethodPlace p τ).verdict = .error f) :
    ∃ methods, methods <+: s.methods ∧
      pass.MethodsMade σ methods (pass.checkMethodPlace p τ).store ∧
      pass.CheckEnds s s.fields methods (.error f) (pass.checkMethodPlace p τ).store := by
  have hout := pass.checkMethodPlace_outcome p htop
  generalize hr : pass.checkMethodPlace p τ = r at hout hf
  cases hout with
  | refused =>
    cases hf
    exact ⟨before, ⟨_, he.symm⟩, ⟨rs, hrs, hg⟩, .method he hr⟩
  | @made m _ _ _ _ _ hsignature hmakes hg' =>
    refine ⟨before ++ [.method m], ⟨after, by rw [he, List.append_assoc]; rfl⟩,
      ⟨_, hrs.append hmakes, hg.trans hg'⟩, .body he hsignature hf⟩

/-- **A check declares what comes before the fault**, and a method whose body has it. -/
theorem Source.confined (s : Source) (htop : σ.HasTable pass.scope.top) :
    s.Confined pass σ (pass.check s σ).verdict (pass.check s σ).store := by
  unfold Confined Pass.check
  split
  · next f hf =>
    exact ⟨[], [], [], [], List.nil_prefix, List.nil_prefix, FieldPlace.makes_nil _,
      MethodPlace.makes_nil _, .refl _ σ, .entryPoint hf⟩
  · have hfields := pass.checkFields_upTo s.fields htop
    generalize checkInOrder pass.checkFieldPlace s.fields σ = r at hfields
    cases hfields with
    | @stopped before after _ p f τ he h hf =>
      obtain ⟨ss, hss, hg⟩ := h
      have hstore := Pass.store_of_checkFieldPlace (hg.hasTable htop) hf
      refine ⟨before, [], ss, [], ⟨_, he.symm⟩, List.nil_prefix, hss, MethodPlace.makes_nil _, ?_,
        ?_⟩
      · rw [hstore]
        exact hg
      · rw [hstore]
        exact .field he hf
    | @all _ τ h =>
      obtain ⟨ss, hss, hg⟩ := h
      have hmethods := pass.checkMethods_upTo s.methods (hg.hasTable htop)
      dsimp only
      generalize checkInOrder pass.checkMethodPlace s.methods τ = r at hmethods
      cases hmethods with
      | @stopped before after _ p f υ he h hf =>
        obtain ⟨rs, hrs, hg'⟩ := h
        obtain ⟨methods, hprefix, ⟨rs', hmakes, hgains⟩, hends⟩ :=
          Pass.checkEnds_method (hg'.hasTable (hg.hasTable htop)) he hrs hg' hf
        refine ⟨s.fields, methods, ss, rs', List.prefix_rfl, hprefix, hss, hmakes, ?_, hends⟩
        simpa using hg.trans hgains
      | all h =>
        obtain ⟨rs, hrs, hg'⟩ := h
        refine ⟨s.fields, s.methods, ss, rs, List.prefix_rfl, List.prefix_rfl, hss, hrs, ?_,
          .passed⟩
        simpa using (hg.trans hg').report _

/-- The check of a source with a new pass leaves the tables that there were as they are. -/
theorem Source.analyze_keeps (s : Source) (host : Host) (σ : Store) :
    σ.Keeps (s.analyze host σ).store := by
  have hnew := host.checker_spec σ
  obtain ⟨_, _, _, _, -, -, -, -, hgains, -⟩ := s.confined hnew.top
  refine ⟨Nat.le_trans hnew.keeps.size (Nat.le_of_eq hgains.size.symm), fun id hid => ?_⟩
  exact (hgains.other id fun he => hnew.fresh (he ▸ hid)).trans (hnew.keeps.table id hid)

theorem Source.registries_analyze (s : Source) (host : Host) (σ : Store) :
    (s.analyze host σ).store.registries = (host.checker σ).2.registries := by
  obtain ⟨_, _, _, _, -, -, -, -, hgains, -⟩ := s.confined (host.checker_spec σ).top
  exact hgains.registries

theorem Source.encoding_analyze (s : Source) (host : Host) (σ : Store) :
    (s.analyze host σ).store.encoding = σ.encoding := by
  obtain ⟨_, _, _, _, -, -, -, -, hgains, -⟩ := s.confined (host.checker_spec σ).top
  exact hgains.encoding.trans (σ.stream_newPass host.parent host.registry none).2

end Parlance
