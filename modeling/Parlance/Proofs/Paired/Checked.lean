/-
Sources that are alike are checked alike.

If a source passes the check, so does one that is alike, and both are annotated alike.  From field
to field and from method to method the stores of the two checks go on to correspond.
-/
import Parlance.Proofs.Checking.Bare
import Parlance.Proofs.Checking.Entry
import Parlance.Proofs.Paired.Bare
import Parlance.Proofs.Paired.Checking

namespace Parlance

/-! ### Entry points -/

/-- Methods in corresponding places are entry points alike. -/
theorem MethodPlace.Alike.promise? {k : Likeness} {m m' : MethodPlace} (h : m.Alike k m') :
    m'.promise? = m.promise? := by
  have alike {m m' : Method} {ν : Renaming} (h : m.Alike k ν m') :=
    m.entryPoint_congr h.name (by rw [h.parameters, List.isEmpty_map]) h.returnTypeName
  cases h with
  | method _ h | untyped _ h => exact congrArg Except.ok (alike h)
  | hole => rfl

theorem Source.Alike.checkEntryPoint {k : Likeness} {s s' : Source} (h : s.Alike k s') :
    s'.checkEntryPoint = s.checkEntryPoint := by
  refine Source.checkEntryPoint_congr (List.forall₂_eq_eq_eq ▸ ?_)
  rw [List.forall₂_map_left_iff, List.forall₂_map_right_iff]
  exact h.methods.flip.imp fun _ _ h => h.promise?

/-- A check does not change what is an entry point. -/
theorem Source.checkEntryPoint_of_bare {s s' : Source} (h : s'.bare = s.bare) :
    s'.checkEntryPoint = s.checkEntryPoint := by
  have bare (s : Source) : s.bare.methods.map MethodPlace.promise?
      = s.methods.map MethodPlace.promise? := by
    refine (List.map_map).trans (List.map_congr_left fun p _ => ?_)
    cases p with
    | method m | untyped m => exact congrArg Except.ok (m.entryPoint_congr rfl rfl rfl)
    | hole _ => rfl
  exact Source.checkEntryPoint_congr (by rw [← bare s', h, bare s])

/-- Annotations of trees that are given do not matter, if they do not to the types that declarations
name. -/
theorem Correspondence.given_loose {k : Correspondence}
    (h : ∀ {e n n'} e', k.typeNames e n n' → k.typeNames e' n n') :
    k.given.Looser k.given :=
  ⟨id, id, h, fun _ _ => trivial, fun _ _ => trivial, fun _ _ => trivial⟩

namespace Collation

variable {k : Collation} {p p' : Pass} {σ σ₁ τ : Store}

/-- The place outside of all blocks. -/
theorem Lawful.outside (hk : k.Lawful p p') (hs : k.stores σ τ) :
    k.Places p p' .same (p.context σ) (p'.context τ) :=
  ⟨rfl, rfl, hs, hk.names, .nil, fun _ h => h.elim, .none⟩

/-! ### Fields -/

/-- A field that is alike one that is in order passes the check, and leaves a store that
corresponds. -/
theorem Lawful.checkFieldPlace (hk : k.Lawful p p') (hs : k.stores σ τ)
    {f₀ f f' : FieldPlace} (ht : p.FieldTyped σ f₀ f σ₁) (hf : f.Alike k.given f') :
    ∃ g τ₁, p'.checkFieldPlace f' τ = ⟨g, .ok (), τ₁⟩ ∧ f.Alike k.tree g ∧ k.stores σ₁ τ₁ := by
  cases ht with
  | @intro g value t v _ hf' hd hv =>
    -- A field and a declaration in its place are checked alike.
    have field {a b : Field} (ha : a = { g with value, bound := some v })
        (hab : a.Alike k.given b) :
        ∃ b' τ₁, p'.checkField b τ = ⟨b', .ok (), τ₁⟩ ∧ a.Alike k.tree b' ∧
          k.stores (p.addVariable v σ) τ₁ := by
      subst ha
      obtain ⟨hname, htype, hvalue, -⟩ := hab
      simp only at hname hvalue htype
      obtain ⟨value', t', hcheck, halike, hT⟩ := hk.checkDeclared (hk.outside hs) (n := g.name) hd
        hvalue htype
      have hfree : (σ.table p.scope.top).slot? g.name = none ∧
          v = ⟨g.name, g.name, t, .table p.scope.top⟩ := by
        simp only [Context.declare, Pass.context] at hv
        split at hv
        · cases hv
        · next hfree =>
          cases hv
          exact ⟨hfree, rfl⟩
      obtain ⟨hfree, rfl⟩ := hfree
      obtain ⟨hfree', hs'⟩ := hk.addVariable hs hT hfree
      have hdecl :
          (p'.context τ).declare g.name t' = .ok ⟨g.name, g.name, t', .table p'.scope.top⟩ := by
        simp only [Context.declare, Pass.context, hfree']
      refine ⟨{ b with value := value', bound := some ⟨g.name, g.name, t', .table p'.scope.top⟩ },
        _, ?_, ⟨hname, htype, halike, .some ⟨hk.names _, hk.names _, hT⟩⟩, hs'⟩
      unfold Pass.checkField
      simp only [hname, hcheck, Except.bind, hdecl]
    cases hf with
    | field h =>
      obtain ⟨b', τ₁, hcheck, halike, hs'⟩ := field (Option.some.inj hf') h
      exact ⟨.field b', τ₁, by rw [Pass.checkFieldPlace, hcheck]; rfl, .field halike, hs'⟩
    | declaration h =>
      obtain ⟨b', τ₁, hcheck, halike, hs'⟩ := field (Option.some.inj hf') h
      exact ⟨.declaration b', τ₁, by rw [Pass.checkFieldPlace, hcheck]; rfl, .declaration halike,
        hs'⟩
    | _ => cases hf'

/-! ### Methods -/

theorem Places.types (hk : k.Lawful p p') {ν : Renaming} {c c' : Context}
    (h : k.Places p p' ν c c') {ns : List Name} {ts : List Ty} (hts : c.types ns = .ok ts) :
    ∃ ts', c'.types ns = .ok ts' ∧ List.Forall₂ k.types ts ts' := by
  induction ns generalizing ts with
  | nil =>
    cases hts
    exact ⟨[], rfl, .nil⟩
  | cons n ns ih =>
    simp only [Context.types] at hts ⊢
    split at hts
    · cases hts
    · next t ht =>
      obtain ⟨rest, hrest, rfl⟩ := Except.map_ok.mp hts
      obtain ⟨rest', hrest', hR⟩ := ih hrest
      cases n with
      | none => cases ht
      | some n =>
        obtain ⟨t', ht', hT⟩ := h.type hk ht
        refine ⟨t' :: rest', ?_, .cons hT hR⟩
        simp only [Context.type?, ht', hrest', Except.map]

theorem Places.resultType (hk : k.Lawful p p') {ν : Renaming} {c c' : Context}
    (h : k.Places p p' ν c c') {n : Option Text} {t : Ty} (ht : c.resultType n = .ok t) :
    ∃ t', c'.resultType n = .ok t' ∧ k.types t t' := by
  cases n with
  | none =>
    cases ht
    exact ⟨_, rfl, hk.builtin .nil⟩
  | some n => exact h.type hk ht

/-- The block of the parameters, under other names. -/
theorem parameterBlock_alike {ν : Renaming} (hν : ∀ n, k.names n (ν.name n)) {ns : List Name}
    {ts ts' : List Ty} (hts : List.Forall₂ k.types ts ts') {b b' block : List Variable}
    (hb : List.Forall₂ (fun v v' => v'.name = ν.name v.name ∧ k.Variables v v') b b')
    (h : parameterBlock (ns.zip ts) b = .ok block) :
    ∃ block', parameterBlock ((ns.map ν.name).zip ts') b' = .ok block' ∧
      List.Forall₂ (fun v v' => v'.name = ν.name v.name ∧ k.Variables v v') block block' := by
  induction hts generalizing ns b b' with
  | nil =>
    rw [List.zip_nil_right] at h ⊢
    cases h
    exact ⟨b', rfl, hb⟩
  | @cons t t' ts ts' hT _ ih =>
    cases ns with
    | nil =>
      cases h
      exact ⟨b', rfl, hb⟩
    | cons n ns =>
      simp only [List.map_cons, List.zip_cons_cons, parameterBlock] at h ⊢
      split at h
      · cases h
      · next hfree =>
        have hfree' : ¬(b'.any fun v => v.name == ν.name n) = true := by
          rw [List.any_eq_true] at hfree ⊢
          rintro ⟨v', hv', hname'⟩
          obtain ⟨v, hv, hname, -⟩ := exists_left_of_forall₂ hb hv'
          rw [beq_iff_eq, hname] at hname'
          exact hfree ⟨v, hv, by rw [beq_iff_eq, ν.injective hname']⟩
        rw [if_neg hfree']
        exact ih (List.rel_append hb (.cons ⟨rfl, hν n, hν n, .some hT⟩ .nil)) h

theorem exists_parameter {ns : List Name} {ts : List Ty} {block : List Variable}
    (hl : ns.length = ts.length) (h : parameterBlock (ns.zip ts) [] = .ok block) {n : Name}
    (hn : n ∈ ns) : ∃ v ∈ block, v.name = n := by
  rw [parameterBlock_ok hl h, List.nil_append]
  obtain ⟨i, hi, rfl⟩ := List.mem_iff_getElem.mp hn
  have hi' : i < (List.zipWith (fun n t => (⟨n, n, t, .block 0⟩ : Variable)) ns
      (ts.map some)).length := by
    simp only [List.length_zipWith, List.length_map]
    omega
  exact ⟨_, List.getElem_mem hi', by rw [List.getElem_zipWith]⟩

/-- A method that is alike one that is in order passes the check, and leaves a store that
corresponds. -/
theorem Lawful.checkMethodPlace (hk : k.Lawful p p') (hs : k.stores σ τ)
    {m₀ m m' : MethodPlace} (ht : p.MethodTyped σ m₀ m σ₁) (hm : m.Alike k.given m') :
    ∃ g τ₁, p'.checkMethodPlace m' τ = ⟨g, .ok (), τ₁⟩ ∧ m.Alike k.tree g ∧ k.stores σ₁ τ₁ := by
  obtain @⟨m, types, result, f, σ₂, block, body, hl, hts, hr, hd, hb, hbody⟩ := ht
  cases hm with
  | @method _ m' ν hν h =>
    obtain ⟨hname, hps, hown, hptn, hrtn, halike, -⟩ := h
    simp only at hname hps hown hptn hrtn halike
    have outside := hk.outside hs
    obtain ⟨types', hts', hTs⟩ := outside.types hk hts
    obtain ⟨result', hr', hR⟩ := outside.resultType hk hr
    obtain ⟨f', τ₂, hd', hF, hs₂⟩ := hk.declareFunction hs hTs hR hd
    obtain ⟨block', hb', hblock⟩ := parameterBlock_alike hν hTs .nil hb
    have hs₃ := hk.report (.checkedMethod m.name types.length) hs₂
    have places : k.Places p p' ν
        (p.bodyContext (σ₂.report (.checkedMethod m.name types.length)) block result)
        (p'.bodyContext (τ₂.report (.checkedMethod m.name types.length)) block' result') := by
      refine ⟨rfl, rfl, hs₃, hν, .cons hblock .nil, fun n hn => ?_, .some hR⟩
      exact ⟨block, List.mem_cons_self, exists_parameter hl hb (hown n hn)⟩
    obtain ⟨body', hcheck, halike'⟩ := hk.checkStmts places (List.cons_ne_nil _ _) hbody halike
    refine ⟨.method { m' with body := body', bound := some f' }, _, ?_,
      .method hν ⟨hname, hps, hown, hptn, hrtn, halike', .some hF⟩, hs₃⟩
    have hlength : m'.parameters.length = m'.parameterTypeNames.length := by
      rw [hps, hptn, List.length_map, hl, Context.length_types hts]
    have hsignature : m'.signature (p'.context τ) = .ok (types', result') := by
      simp only [Method.signature, hlength, hptn, hrtn, hts', hr', Except.map, ne_eq,
        not_true_eq_false, if_false]
    have hcheckBody : m'.checkBody (p'.context (τ₂.report (.checkedMethod m.name types.length)))
        types' result' = (body', .ok ()) := by
      unfold Method.checkBody
      rw [hps, hb']
      exact hcheck
    simp only [Pass.checkMethodPlace, Pass.checkMethod, hsignature, hname, hd', ← hTs.length_eq,
      hcheckBody, Checked.map]

/-! ### Sources -/

/-- What goes on from one tree to the next goes on along a list of them. -/
theorem checkInOrder_alike {α : Type} {R : Store → α → α → Store → Prop}
    (given tree : α → α → Prop) {check : α → Store → Checked α}
    (hstep : ∀ {σ σ₁ τ a₀ a a'}, R σ a₀ a σ₁ → given a a' → k.stores σ τ →
      ∃ b τ₁, check a' τ = ⟨b, .ok (), τ₁⟩ ∧ tree a b ∧ k.stores σ₁ τ₁)
    {as₀ as as' : List α} (h : InOrder R σ as₀ as σ₁) (has : List.Forall₂ given as as')
    (hs : k.stores σ τ) : ∃ bs τ₁, checkInOrder check as' τ = ⟨bs, .ok (), τ₁⟩ ∧
      List.Forall₂ tree as bs ∧ k.stores σ₁ τ₁ := by
  induction h generalizing as' τ with
  | nil =>
    cases has
    exact ⟨[], τ, rfl, .nil, hs⟩
  | cons h _ ih =>
    cases has with
    | cons ha has =>
      obtain ⟨b, τ₁, hcheck, htree, hs₁⟩ := hstep h ha hs
      obtain ⟨bs, τ₂, hchecks, htrees, hs₂⟩ := ih has hs₁
      refine ⟨b :: bs, τ₂, ?_, .cons htree htrees, hs₂⟩
      rw [checkInOrder, hcheck]
      simp only [hchecks]

/-- **A source that is alike the annotated tree of one that passes the check** passes it too, and
is annotated alike. -/
theorem Lawful.checkTree (hk : k.Lawful p p') (hs : k.stores σ τ) {s s' : Source}
    (given : (p.check s σ).tree.Alike k.given s') (h : (p.check s σ).verdict = .ok ()) :
    (p'.check s' τ).verdict = .ok () ∧ (p.check s σ).tree.Alike k.tree (p'.check s' τ).tree := by
  obtain ⟨σ₁, σ₂, record, typed, -⟩ := Pass.check_typed h
  have entryPoint : s'.checkEntryPoint = .ok () :=
    (given.checkEntryPoint.trans (Source.checkEntryPoint_of_bare (p.check_bare s σ))).trans
      typed.entryPoint
  have field {σ σ₁ τ : Store} {a₀ a a' : FieldPlace} (ht : p.FieldTyped σ a₀ a σ₁)
      (ha : a.Alike k.given a') (hs : k.stores σ τ) := hk.checkFieldPlace hs ht ha
  have method {σ σ₁ τ : Store} {a₀ a a' : MethodPlace} (ht : p.MethodTyped σ a₀ a σ₁)
      (ha : a.Alike k.given a') (hs : k.stores σ τ) := hk.checkMethodPlace hs ht ha
  obtain ⟨fields', τ₁, hfields, hF, hs₁⟩ :=
    checkInOrder_alike _ (FieldPlace.Alike k.tree) field typed.fields given.fields hs
  obtain ⟨methods', τ₂, hmethods, hM, -⟩ :=
    checkInOrder_alike _ (MethodPlace.Alike k.tree) method typed.methods given.methods hs₁
  have hcheck : p'.check s' τ = ⟨⟨fields', methods'⟩, .ok (),
      τ₂.report (.analysed fields'.length methods'.length)⟩ := by
    unfold Pass.check
    simp only [entryPoint, hfields, hmethods]
  rw [hcheck]
  exact ⟨rfl, ⟨hF, hM⟩⟩

/-- **Sources that are alike are checked alike**: if the one passes so does the other, and they
are annotated alike. -/
theorem Lawful.checkSource (hk : k.Lawful p p') (loose : k.given.Looser k.given) (hs : k.stores σ τ)
    {s s' : Source} (hss : s.Alike k.given s') (h : (p.check s σ).verdict = .ok ()) :
    (p'.check s' τ).verdict = .ok () ∧ (p.check s σ).tree.Alike k.tree (p'.check s' τ).tree :=
  hk.checkTree hs (hss.of_bare loose (p.check_bare s σ)) h

end Collation

end Parlance
