/-
The outcome of checking a tree that was read.

The check goes through the tree, and at each node comes down to decisions that stop at most for
a fault that is told.  So does the whole check, in any scope and with any registry, and with
whatever annotations earlier checks have left in the tree.  What the check declares on the way
has its types, so that the statement about types that are missing comes down to the functions
that were there before.

Nothing of this depends on the annotations, and neither does it whether a tree can be written.
-/
import Parlance.Proofs.Checking.Told

namespace Parlance

open Eval (Meets)

/-! ### Expressions -/

namespace Expr

theorem settle_snd (node : Option Ty → Expr) (old : Option Ty)
    (found : Except Fault (Option Ty)) : (settle node old found).2 = found := by
  cases found <;> rfl

theorem resolve_snd {α : Type} (node : Option α → Option Ty → Expr) (bound : Option α)
    (old : Option Ty) (found : Except Fault (α × Option Ty)) :
    (resolve node bound old found).2 = found.map Prod.snd := by
  cases found <;> rfl

/-- What the check of an expression finds: a type, or a fault that is told. -/
abbrev Finds (known : Prop) (found : Except Fault (Option Ty)) : Prop :=
  Meets (Fault.Told known) found fun t => known → t ≠ none

variable {known : Prop} {c : Context}

theorem finds_resolve {α : Type} {node : Option α → Option Ty → Expr} {bound : Option α}
    {old : Option Ty} {found : Except Fault (α × Option Ty)}
    (h : Meets (Fault.Told known) found fun b => known → b.2 ≠ none) :
    Finds known (resolve node bound old found).2 := by
  rw [resolve_snd]
  exact h.map fun _ hb => hb

mutual

theorem check_finds (hc : known → c.store.FunctionsTyped) :
    (e : Expr) → AllSpelled e.walk → Finds known (e.check c).2
  | .literal v old, h => by
    rw [Expr.walk, allSpelled_cons] at h
    rw [check, settle_snd]
    exact (meets_literalType h.1).map fun _ _ _ => Option.some_ne_none _
  | .group e old, h => by
    rw [Expr.walk, allSpelled_cons] at h
    rw [check]
    split
    · rw [settle_snd]
      exact check_finds hc e h.2
    · exact told_of_message rfl
  | .binary op l r old, h => by
    rw [Expr.walk, allSpelled_cons, allSpelled_append] at h
    have hl := check_finds hc l h.2.1
    have hr := check_finds hc r h.2.2
    rw [check]
    split
    · next l' f he =>
      rw [he] at hl
      exact hl
    · next l' tl he =>
      rw [he] at hl
      split
      · next r' f he' =>
        rw [he'] at hr
        exact hr
      · next r' tr he' =>
        rw [he'] at hr
        rw [settle_snd]
        exact (meets_binaryType h.1 hl hr).map fun _ _ _ => Option.some_ne_none _
  | .access name bound old, h => by
    rw [Expr.walk, allSpelled_cons] at h
    rw [check]
    exact finds_resolve ((c.meets_variableOf h.1).bind fun v _ => meets_typed v h.1)
  | .member receiver name bound old, h => by
    rw [Expr.walk, allSpelled_cons] at h
    have hr := check_finds hc receiver h.2
    rw [check]
    split
    · split
      · next r f he =>
        rw [he] at hr
        exact hr
      · next r owner he =>
        rw [he] at hr
        exact finds_resolve <| (meets_known hr).bind fun t _ =>
          (c.meets_memberOf t h.1).bind fun v _ => meets_typed v h.1
    · exact told_of_message rfl
  | .call name arguments bound old, h => by
    rw [Expr.walk, allSpelled_cons] at h
    have ha := checkAll_finds hc arguments h.2
    rw [check]
    split
    · next as f he =>
      rw [he] at ha
      exact ha
    · next as ts he =>
      rw [he] at ha
      exact finds_resolve <| (c.meets_functionOf _ h.1 hc).bind fun f hf =>
        f.meets_applied hf (fun _ ht => ht) ha
  | .memberCall receiver name arguments bound old, h => by
    rw [Expr.walk, allSpelled_cons, allSpelled_append] at h
    have hr := check_finds hc receiver h.2.1
    have ha := checkAll_finds hc arguments h.2.2
    rw [check]
    split
    · next as f he =>
      rw [he] at ha
      exact ha
    · next as ts he =>
      rw [he] at ha
      split
      · split
        · next r f he' =>
          rw [he'] at hr
          exact hr
        · next r owner he' =>
          rw [he'] at hr
          exact finds_resolve <| (meets_known hr).bind fun t _ =>
            (c.meets_memberFunctionOf t _ h.1 hc).bind fun f hf =>
              f.meets_applied hf (fun _ ht => List.mem_of_mem_drop ht) ha
      · exact told_of_message rfl
  | .hole k, h => absurd h k.not_spelled

theorem checkAll_finds (hc : known → c.store.FunctionsTyped) :
    (es : List Expr) → AllSpelled (walkExprs es) →
    Meets (Fault.Told known) (checkAll c es).2 fun ts => known → ∀ t ∈ ts, t ≠ none
  | [], _ => fun _ => List.forall_mem_nil _
  | e :: es, h => by
    rw [walkExprs, allSpelled_append] at h
    have he := check_finds hc e h.1
    have hes := checkAll_finds hc es h.2
    rw [checkAll]
    split
    · next e' f heq =>
      rw [heq] at he
      exact he
    · next e' t heq =>
      rw [heq] at he
      split
      · next es' f heq' =>
        rw [heq'] at hes
        exact hes
      · next es' ts heq' =>
        rw [heq'] at hes
        exact fun hk => List.forall_mem_cons.mpr ⟨he hk, hes hk⟩

end

end Expr

/-! ### Statements -/

theorem checkDeclared_finds {known : Prop} {c : Context} (hc : known → c.store.FunctionsTyped)
    {name : Name} (hname : name ≠ none) (typeName : Option Text) {value : Option Expr}
    (h : AllSpelled (walkOption value)) :
    Meets (Fault.Told known) (checkDeclared c name typeName value).2 fun _ => True := by
  unfold checkDeclared
  split
  · exact told_of_name hname ⟨_, rfl⟩
  · exact (c.meets_type _).map fun _ _ => trivial
  · next e => exact (e.check_finds hc h).mono fun _ _ => trivial
  · next e n =>
    have ht : Meets (Fault.Told known) (c.type n) fun _ => True := c.meets_type n
    split
    · next f hf =>
      rw [hf] at ht
      exact ht
    · next declared _ =>
      exact (e.check_finds hc h).bind fun t ht =>
        (meets_require declared ht).map fun _ _ => trivial

section Decisions

variable {known : Prop} {c : Context}

theorem checkCondition_finds (hc : known → c.store.FunctionsTyped) {condition : Expr}
    (h : AllSpelled condition.walk) :
    Meets (Fault.Told known) (checkCondition c condition).2 fun _ => True :=
  (condition.check_finds hc h).bind fun _ ht => (meets_require _ ht).map fun _ _ => trivial

theorem meets_allowAssignment {target source : Option Ty} (ht : known → target ≠ none)
    (hs : known → source ≠ none) :
    Meets (Fault.Told known) (allowAssignment target source) fun _ => True := by
  unfold allowAssignment
  exact (meets_known ht).bind fun t _ => (meets_require t hs).bind fun _ _ => trivial

theorem meets_allowResult (expected : Ty) {got : Option Ty} (hg : known → got ≠ none) :
    Meets (Fault.Told known) (allowResult expected got) fun _ => True := by
  unfold allowResult
  refine (meets_known hg).bind fun t _ => ?_
  split
  · trivial
  · exact told_of_message rfl

theorem meets_allowIterable {got : Option Ty} (hg : known → got ≠ none) :
    Meets (Fault.Told known) (allowIterable got) fun _ => True := by
  unfold allowIterable
  refine (meets_known hg).bind fun t _ => ?_
  split
  · trivial
  · exact told_of_message rfl

end Decisions

namespace Stmt

variable {known : Prop}

mutual

theorem check_finds {c : Context} (hc : known → c.store.FunctionsTyped) :
    (s : Stmt) → AllSpelled s.walk → Meets (Fault.Told known) (s.check c).2 fun _ => True
  | .expression e, h => by
    rw [Stmt.walk, allSpelled_cons] at h
    rw [check]
    split
    · exact (e.check_finds hc h.2).map fun _ _ => trivial
    · exact told_of_message rfl
  | .declaration name typeName value bound, h => by
    rw [Stmt.walk, allSpelled_cons] at h
    have found := (checkDeclared_finds hc h.1 typeName h.2).bind fun t _ =>
      c.meets_declare t h.1
    rw [check]
    dsimp only
    split
    · trivial
    · next f hf => exact found.error hf
  | .assignment target value, h => by
    rw [Stmt.walk, allSpelled_cons, allSpelled_append] at h
    have ht := target.check_finds hc h.2.1
    have hv := value.check_finds hc h.2.2
    rw [check]
    split
    · split
      · next t f he =>
        rw [he] at ht
        exact ht
      · next t expected he =>
        rw [he] at ht
        exact hv.bind fun got hgot =>
          (meets_allowAssignment ht hgot).map fun _ _ => trivial
    · exact told_of_message rfl
  | .conditional condition thenBody elseBody, h => by
    rw [Stmt.walk, allSpelled_cons, allSpelled_append, allSpelled_append] at h
    have hcondition := checkCondition_finds hc h.2.1
    have hthen := checkAll_finds (c := c.enter []) hc thenBody h.2.2.1
    have helse := checkAll_finds (c := c.enter []) hc elseBody h.2.2.2
    rw [check]
    split
    · next e f he =>
      rw [he] at hcondition
      exact hcondition
    · split
      · exact told_of_message rfl
      · split
        · next ss f he =>
          rw [he] at hthen
          exact hthen
        · exact helse.map fun _ _ => trivial
  | .forEach name value body, h => by
    rw [Stmt.walk, allSpelled_cons, allSpelled_append] at h
    have hvalue := (value.check_finds hc h.2.1).bind fun t ht => meets_allowIterable ht
    rw [check]
    dsimp only
    split
    · next f hf => exact hvalue.error hf
    · split
      · exact told_of_message rfl
      · exact (checkAll_finds (c := c.enter _) hc body h.2.2).map fun _ _ => trivial
  | .whileLoop condition body, h => by
    rw [Stmt.walk, allSpelled_cons, allSpelled_append] at h
    have hcondition := checkCondition_finds hc h.2.1
    rw [check]
    split
    · next e f he =>
      rw [he] at hcondition
      exact hcondition
    · exact (checkAll_finds (c := c.enter []) hc body h.2.2).map fun _ _ => trivial
  | .returning value, h => by
    rw [Stmt.walk, allSpelled_cons] at h
    rw [check]
    split
    · exact told_of_message rfl
    · next expected _ =>
      exact (value.check_finds hc h.2).bind fun t ht =>
        (meets_allowResult expected ht).map fun _ _ => trivial
  | .hole k, h => absurd h k.not_spelled

theorem checkAll_finds {c : Context} (hc : known → c.store.FunctionsTyped) :
    (ss : List Stmt) → AllSpelled (walkStmts ss) →
    Meets (Fault.Told known) (checkAll c ss).2 fun _ => True
  | [], _ => trivial
  | s :: ss, h => by
    rw [walkStmts, allSpelled_append] at h
    have hs := check_finds hc s h.1
    rw [checkAll]
    split
    · next s' f he =>
      rw [he] at hs
      exact hs
    · next s' declared he =>
      exact checkAll_finds (c.store_extend declared ▸ hc) ss h.2

end

end Stmt

/-! ### Methods -/

section Methods

variable {known : Prop} {c : Context}

theorem Context.meets_types : (names : List Name) → (∀ n ∈ names, n ≠ none) →
    Meets (Fault.Told known) (c.types names) fun _ => True
  | [], _ => trivial
  | n :: ns, h => by
    obtain ⟨n', rfl⟩ := Option.ne_none_iff_exists'.mp (h n List.mem_cons_self)
    have ht : Meets (Fault.Told known) (c.type n') fun _ => True := c.meets_type n'
    have hrest := meets_types ns fun m hm => h m (List.mem_cons_of_mem _ hm)
    rw [types]
    split
    · next f hf => exact ht.error hf
    · exact hrest.map fun _ _ => trivial

theorem Method.meets_signature {m : Method} (h : m.Spelled) :
    Meets (Fault.Told known) (m.signature c) fun _ => True := by
  unfold signature
  split
  · exact told_of_name h.name ⟨_, rfl⟩
  · have ht : Meets (Fault.Told known) (c.types m.parameterTypeNames) fun _ => True :=
      c.meets_types m.parameterTypeNames h.types
    split
    · next f hf => exact ht.error hf
    · refine Meets.map (Q := fun _ => True) ?_ fun _ _ => trivial
      unfold Context.resultType
      split
      · trivial
      · exact c.meets_type _

theorem parameterBlock_error {names : List (Name × Ty)} {block : List Variable} {f : BindingFault}
    (h : parameterBlock names block = .error f) : ∃ n ∈ names, f = .duplicateName n.1 := by
  induction names generalizing block with
  | nil => cases h
  | cons n ns ih =>
    rw [parameterBlock] at h
    split at h
    · cases h
      exact ⟨n, List.mem_cons_self, rfl⟩
    · obtain ⟨m, hm, hf⟩ := ih h
      exact ⟨m, List.mem_cons_of_mem _ hm, hf⟩

theorem Method.checkBody_finds {m : Method} (hc : known → c.store.FunctionsTyped)
    (hm : m.Spelled) (h : AllSpelled (walkStmts m.body)) (types : List Ty) (result : Ty) :
    Meets (Fault.Told known) (m.checkBody c types result).2 fun _ => True := by
  unfold checkBody
  split
  · next f hf =>
    obtain ⟨n, hn, rfl⟩ := parameterBlock_error hf
    exact told_of_name (hm.parameters n.1 (List.of_mem_zip hn).1) ⟨_, rfl⟩
  · next block _ =>
    exact Stmt.checkAll_finds (c := { c with blocks := [block], returns? := some result }) hc
      m.body h

end Methods

/-! ### Sources -/

section Sources

variable {known : Prop} {pass : Pass} {σ : Store}

/-- In the store there is the table, and functions have their types where something is known. -/
structure Store.Ready (known : Prop) (top : TableId) (σ : Store) : Prop where
  top : σ.HasTable top
  typed : known → σ.FunctionsTyped

theorem Store.Ready.report {top : TableId} (h : σ.Ready known top) (record : LogRecord) :
    (σ.report record).Ready known top :=
  ⟨h.top, h.typed⟩

/-- The verdict is a fault that is told, if it is a fault, and the store is ready for more. -/
structure Checked.Tells {α : Type} (known : Prop) (top : TableId) (c : Checked α) : Prop where
  verdict : Meets (Fault.Told known) c.verdict fun _ => True
  ready : c.store.Ready known top

theorem Checked.Tells.map {α β : Type} {top : TableId} {c : Checked α} {g : α → β}
    (h : c.Tells known top) : (c.map g).Tells known top :=
  ⟨h.verdict, h.ready⟩

theorem Pass.checkFieldPlace_tells {p : FieldPlace} (h : AllSpelled p.walk)
    (hσ : σ.Ready known pass.scope.top) :
    (pass.checkFieldPlace p σ).Tells known pass.scope.top := by
  cases p with
  | declaration f =>
    rw [FieldPlace.walk, allSpelled_cons] at h
    exact h.1.elim
  | hole k => exact absurd h k.not_spelled
  | field f =>
    rw [FieldPlace.walk, allSpelled_cons] at h
    have found := (checkDeclared_finds (c := pass.context σ) hσ.typed h.1 f.typeName h.2).bind
      fun t _ => (pass.context σ).meets_declare t h.1
    refine Checked.Tells.map (c := pass.checkField f σ) ?_
    unfold checkField
    dsimp only
    split
    · next v hv =>
      have same : σ.SameFunctions (pass.addVariable v σ) := .modifyTable σ _ fun _ => rfl
      exact ⟨trivial, same.hasTable hσ.top, fun hk => (hσ.typed hk).of_same same⟩
    · next f hf => exact ⟨found.error hf, hσ⟩

/-- A method is declared with all of its types. -/
theorem Store.Ready.declareFunction {top : TableId} {name : Name} {types : List Ty} {result : Ty}
    {f : Function} {τ : Store} (hσ : σ.Ready known top)
    (h : σ.declareFunction top name (types.map some) (some result) none none = .ok (f, τ)) :
    τ.Ready known top := by
  unfold Store.declareFunction at h
  split at h
  · cases h
  · cases h
    have adds := Store.AddsFunctions.addRoutine hσ.top
      ⟨⟨name, name, types.map some, some result, top⟩, none⟩
    refine ⟨adds.hasTable hσ.top, fun hk => (hσ.typed hk).adds adds ⟨?_, Option.some_ne_none _⟩⟩
    simp

theorem Pass.checkMethodPlace_tells {p : MethodPlace} (h : AllSpelled p.walk)
    (hσ : σ.Ready known pass.scope.top) :
    (pass.checkMethodPlace p σ).Tells known pass.scope.top := by
  cases p with
  | untyped m =>
    rw [MethodPlace.walk, allSpelled_cons] at h
    exact h.1.elim
  | hole k => exact absurd h k.not_spelled
  | method m =>
    rw [MethodPlace.walk, allSpelled_cons] at h
    obtain ⟨hm, hbody⟩ := h
    have signature : Meets (Fault.Told known) (m.signature (pass.context σ)) fun _ => True :=
      Method.meets_signature hm
    refine Checked.Tells.map (c := pass.checkMethod m σ) ?_
    unfold checkMethod
    split
    · next f hf => exact ⟨signature.error hf, hσ⟩
    · next types result _ =>
      split
      · next f hf => exact ⟨told_of_name hm.name (Store.about_of_declareFunction hf), hσ⟩
      · next f τ hτ =>
        have ready := (hσ.declareFunction hτ).report (.checkedMethod m.name types.length)
        exact ⟨m.checkBody_finds (c := pass.context _) ready.typed hm hbody types result, ready⟩

theorem checkInOrder_tells {α : Type} (check : α → Store → Checked α) {top : TableId}
    (as : List α) (h : ∀ a ∈ as, ∀ τ : Store, τ.Ready known top → (check a τ).Tells known top)
    (hσ : σ.Ready known top) : (checkInOrder check as σ).Tells known top := by
  induction as generalizing σ with
  | nil => exact ⟨trivial, hσ⟩
  | cons a as ih =>
    have first := h a List.mem_cons_self σ hσ
    rw [checkInOrder]
    rcases hc : check a σ with ⟨a', f | _, τ⟩
    · rw [hc] at first
      exact ⟨first.verdict, first.ready⟩
    · rw [hc] at first
      have rest := ih (fun b hb => h b (List.mem_cons_of_mem _ hb)) first.ready
      exact ⟨rest.verdict, rest.ready⟩

/-- All that stands in places for methods can be asked whether it is an entry point. -/
theorem exists_entryPoints : (ps : List MethodPlace) → AllSpelled (ps.flatMap MethodPlace.walk) →
    ∃ ms, ps.mapM MethodPlace.entryPoint? = .ok ms
  | [], _ => ⟨[], rfl⟩
  | p :: ps, h => by
    rw [List.flatMap_cons, allSpelled_append] at h
    obtain ⟨ms, hms⟩ := exists_entryPoints ps h.2
    rw [List.mapM_cons, hms]
    cases p with
    | hole k => exact absurd h.1 k.not_spelled
    | _ => exact ⟨_, rfl⟩

theorem Source.meets_checkEntryPoint {s : Source} (h : AllSpelled s.walk) :
    Meets (Fault.Told known) s.checkEntryPoint fun _ => True := by
  rw [Source.walk, allSpelled_cons, allSpelled_append] at h
  obtain ⟨ms, hms⟩ := exists_entryPoints s.methods h.2.2
  unfold checkEntryPoint entryPoints
  rw [hms]
  simp only [bind, Except.bind, pure, Except.pure]
  split
  · exact told_of_message rfl
  · split
    · trivial
    · exact told_of_message rfl

/-- The check of a source as documents spell it ends in a verdict, or in a fault that is told. -/
theorem Pass.check_tells {s : Source} (h : AllSpelled s.walk) (hσ : σ.Ready known pass.scope.top) :
    Meets (Fault.Told known) (pass.check s σ).verdict fun _ => True := by
  have entry : Meets (Fault.Told known) s.checkEntryPoint fun _ => True :=
    s.meets_checkEntryPoint h
  rw [Source.walk, allSpelled_cons, allSpelled_append] at h
  have fields := checkInOrder_tells pass.checkFieldPlace s.fields
    (fun p hp _ hτ => pass.checkFieldPlace_tells (h.2.1.of_mem hp) hτ) hσ
  unfold check
  split
  · next f hf => exact entry.error hf
  · split
    · next fs f τ he =>
      rw [he] at fields
      exact fields.verdict
    · next fs u τ he =>
      rw [he] at fields
      have methods := checkInOrder_tells pass.checkMethodPlace s.methods
        (fun p hp _ hτ => pass.checkMethodPlace_tells (h.2.2.of_mem hp) hτ) fields.ready
      split
      · next ms f υ he' =>
        rw [he'] at methods
        exact methods.verdict
      · trivial

end Sources

open Document (toSource ofSource ofForm payload SpellsExpr SpellsSource)

/-- The check of what was read, or of what earlier checks have made of it, ends in a verdict or in a
fault that is told. -/
theorem Source.Annotated.verdict_told {d : Json} {s t : Source} (read : toSource d = .ok s)
    (annotated : s.Annotated t) (host : Host) (σ : Store) :
    Meets (Fault.Told σ.FunctionsTyped) (t.analyze host σ).verdict fun _ => True :=
  have spec := host.checker_spec σ
  Pass.check_tells (annotated.spelled read) ⟨spec.top, fun hk => hk.newPass spec⟩

/-- **A source that was read is checked and written, whatever comes of it.**  The check of it, or of
what earlier checks have made of it, stops at most for a fault that is reported, in any scope and
with any registry of the host; only where some function of the host has no type may it be for that.
Before the check and after it, passed or not, the source can be written. -/
theorem Source.analyze_tells {d : Json} {s t : Source} (read : toSource d = .ok s)
    (annotated : s.Annotated t) (host : Host) (σ : Store) :
    (∀ f, (t.analyze host σ).verdict = .error f →
      (∃ r, f.report = .ok r) ∨ f = .limit .openType ∧ ¬ σ.FunctionsTyped) ∧
    (∃ w, ofSource t = .ok w) ∧ ∃ w, ofSource (t.analyze host σ).tree = .ok w := by
  have told := annotated.verdict_told read host σ
  have again : s.Annotated (t.analyze host σ).tree := .checked annotated _ _
  exact ⟨fun f hf => told.error hf, annotated.written read, again.written read⟩

/-- The document of a source with an integer just beyond those that a literal may be. -/
def farDocument : Json :=
  ofForm .source
    [("fields", .array
      [ofForm .field [("name", .string "far"), ("value", ofForm .literal
        [("value", payload "Integer" (.string "2147483648"))])]]),
     ("methods", .array
      [ofForm .method [("name", .string "main"), ("return_type_name", .string "Integer")]])]

/-- The source that it spells. -/
def Source.far : Source where
  fields := [.field ⟨"far", none, some (.literal (.integer 2147483648) none), none⟩]
  methods := [.method ⟨"main", [], [], some "Integer", [], none⟩]

theorem Source.far_spelled : SpellsSource farDocument far := by
  have numeral : Number.integer? "2147483648" = some 2147483648 := by decide +kernel
  have literal : SpellsExpr
      (ofForm .literal [("value", payload "Integer" (.string "2147483648"))])
      (.literal (.integer 2147483648) none) := .literal rfl rfl (.integer rfl rfl numeral)
  refine .source rfl (.items (.cons ?_ .nil)) (.items (.cons ?_ .nil))
  · exact .field rfl rfl (.vacant (.inl rfl)) (.given literal)
  · exact @Document.SpellsMethod.method _ "main" [] [] _ [] rfl rfl .missing .missing rfl
      (.given (.string _)) .missing

theorem Source.far_analyze_tells :
    toSource farDocument = .ok far ∧
      (far.analyze Host.none .initial).verdict =
        .error (.check (.integerOutOfRange "2147483648")) ∧
      (∃ r, (Fault.check (.integerOutOfRange "2147483648")).report = .ok r) ∧
      ∃ w, ofSource (far.analyze Host.none .initial).tree = .ok w := by
  have read : toSource farDocument = .ok far := (Document.toSource_ok _ _).mpr far_spelled
  have refused : (far.analyze Host.none .initial).verdict =
      .error (.check (.integerOutOfRange "2147483648")) := by decide +kernel
  obtain ⟨told, -, written⟩ := analyze_tells read .read Host.none .initial
  refine ⟨read, refused, ?_, written⟩
  rcases told _ refused with reported | ⟨-, untyped⟩
  · exact reported
  · exact absurd (Store.FunctionsTyped.opened _) untyped

end Parlance
