/-
A type that a declaration names need not be named, if it is that of the value.

Where a field or a variable is declared with a value, and the value's type has the name that the
declaration gives, the declaration may as well give none.  The variable then has the type that the
value brings along, which need not be the registered type of that name: a literal has a type that is
known outside of all registries, a function of the host answers what it promises, and a member has
whatever type the host gave it.  Such types have tables of members of their own, but the members of
a type are those that the registry has for its name, and here the name is known to the registry.  So
nothing in the rest of the program tells the two types apart.
-/
import Parlance.Program
import Parlance.Proofs.Paired.Checked
import Parlance.Proofs.Paired.Relocation
import Parlance.Proofs.Paired.Tables

namespace Parlance

namespace Inferred

/-- The name of a type is that of the type with which the value is annotated. -/
def Names (value : Option Expr) (name : Option Text) : Prop :=
  ∃ e t, value = some e ∧ e.type? = some t ∧ name = some t.name

/-- Trees that agree but for annotations, and but for names of types that declarations in the second
one leave out. Such name the type with which the value is annotated in the first one. -/
def omission : Likeness where
  literals _ := True
  renamings ν := ∀ n, n = ν.name n
  typeNames value name name' := name' = name ∨ Names value name ∧ name' = none
  types _ _ := True
  bound _ _ := True
  callee _ _ := True

/-- Types of one name, which are the same or have a name that is registered. -/
def correspondence (registered : List Ty) : Correspondence where
  types t t' := t'.name = t.name ∧ (t' = t ∨ ∃ d ∈ registered, d.name = t.name)
  names := Eq
  typeNames := omission.typeNames

/-! ### Stores -/

variable {registered : List Ty} {p : Pass} {σ τ : Store}

/-- Stores with the same registry for the pass, and with tables that correspond. -/
structure Stores (registered : List Ty) (p : Pass) (σ τ : Store) : Prop where
  registry : σ.registry p.registry = registered
  registry' : τ.registry p.registry = registered
  top : σ.HasTable p.scope.top
  top' : τ.HasTable p.scope.top
  tables : ∀ id, (correspondence registered).Tables (σ.table id) (τ.table id)

/-- The collation of a check and that of a source which leaves names of types out. -/
def collation (registered : List Ty) (p : Pass) : Collation where
  toCorrespondence := correspondence registered
  stores := Stores registered p

theorem types_refl (t : Ty) : (correspondence registered).types t t :=
  ⟨rfl, .inl rfl⟩

theorem open_refl (t : Option Ty) : (correspondence registered).Open t t := by
  cases t with
  | none => exact .none
  | some t => exact .some (types_refl t)

theorem stores_refl (h : σ.HasTable p.scope.top) : Stores (σ.registry p.registry) p σ σ where
  registry := rfl
  registry' := rfl
  top := h
  top' := h
  tables _ := ⟨List.forall₂_same.mpr fun _ _ => ⟨rfl, rfl, open_refl _⟩,
    List.forall₂_same.mpr fun _ _ =>
      ⟨rfl, rfl, List.forall₂_same.mpr fun _ _ => open_refl _, open_refl _⟩⟩

namespace Stores

variable (h : Stores registered p σ τ)
include h

theorem type? (n : Text) : τ.type? p.registry n = σ.type? p.registry n := by
  unfold Store.type?
  rw [h.registry, h.registry']

/-- Types that correspond have the same members: those of the registered type of their name, or
their own if there is none, but then they are one type. -/
theorem membersOfType {t t' : Ty} (ht : (correspondence registered).types t t') :
    τ.membersOfType p.registry t' = σ.membersOfType p.registry t := by
  unfold Store.membersOfType
  obtain ⟨hname, rfl | ⟨d, hd, hdname⟩⟩ := ht
  · rw [h.type?]
  · have known : (σ.type? p.registry t.name).isSome = true := by
      rw [Store.type?, h.registry, List.find?_isSome]
      exact ⟨d, hd, by simpa using hdname⟩
    obtain ⟨r, hr⟩ := Option.isSome_iff_exists.mp known
    rw [hname, h.type?, hr]

theorem findVariable {n : Name} {ids : List TableId} {s : Slot}
    (hs : σ.findVariable n ids = some s) : ∃ s', τ.findVariable n ids = some s' ∧
      (correspondence registered).Variables s.var s'.var := by
  induction ids with
  | nil => cases hs
  | cons id ids ih =>
    rw [Store.findVariable_cons] at hs ⊢
    have hfound := (h.tables id).slot? Eq.symm n
    generalize (σ.table id).slot? n = found at hfound hs
    generalize (τ.table id).slot? n = found' at hfound
    cases hfound with
    | none => exact ih hs
    | some hvar =>
      cases hs
      exact ⟨_, rfl, hvar⟩

theorem findFunction {n : Name} {count : Nat} {ids : List TableId} {r : Routine}
    (hr : σ.findFunction n count ids = some r) : ∃ r', τ.findFunction n count ids = some r' ∧
      (correspondence registered).Functions r.function r'.function := by
  induction ids with
  | nil => cases hr
  | cons id ids ih =>
    rw [Store.findFunction_cons] at hr ⊢
    have hfound := (h.tables id).routine? n count
    generalize (σ.table id).routine? n count = found at hfound hr
    generalize (τ.table id).routine? n count = found' at hfound
    cases hfound with
    | none => exact ih hr
    | some hfunction =>
      cases hr
      exact ⟨_, rfl, hfunction⟩

/-- Both passes declare in the same table, and leave the rest as it is. -/
theorem modifyTop {f f' : Table → Table} (htop : (correspondence registered).Tables
      (f (σ.table p.scope.top)) (f' (τ.table p.scope.top))) :
    Stores registered p (σ.modifyTable p.scope.top f) (τ.modifyTable p.scope.top f') where
  registry := h.registry
  registry' := h.registry'
  top := σ.hasTable_modifyTable.mpr h.top
  top' := τ.hasTable_modifyTable.mpr h.top'
  tables id := by
    by_cases hid : id = p.scope.top
    · subst hid
      rwa [Store.table_modifyTable_self h.top, Store.table_modifyTable_self h.top']
    · rw [σ.table_modifyTable_of_ne hid, τ.table_modifyTable_of_ne hid]
      exact h.tables id

end Stores

/-! ### Checking -/

/-- The registered type of a name, and one that a value of that name has. -/
theorem types_of_registered {d u : Ty} (hd : d ∈ registered) (hname : u.name = d.name) :
    (correspondence registered).types d u :=
  ⟨hname, .inr ⟨d, hd, rfl⟩⟩

/-- **An inferred type does for the registered one of its name**, whatever is looked up on it or
declared with it. -/
theorem lawful (registered : List Ty) (p : Pass) : (collation registered p).Lawful p p where
  name_eq h := h.1
  builtin _ := types_refl _
  names _ := rfl
  typeNames := by
    rintro e n n' (h | ⟨⟨e, t, rfl, -⟩, h⟩)
    · exact .inl h
    · exact .inr ⟨rfl, h⟩
  inferred {σ τ e n d u} h hn hd hu := by
    rcases hn with hn | ⟨⟨_, t, ⟨⟩, ht, ⟨⟩⟩, -⟩
    · cases hn
    · rw [ht] at hu
      cases hu with
      | some hu =>
        have hname : d.name = t.name := by simpa using List.find?_some hd
        have hmem : d ∈ registered := h.registry ▸ List.mem_of_find?_eq_some hd
        exact .some (types_of_registered hmem (hu.1.trans hname.symm))
  type {_ _ _ t} h ht := ⟨t, (h.type? _).trans ht, types_refl t⟩
  scopeVariable {σ τ n s} h hs := by
    obtain ⟨s', hs', hvar⟩ := h.findVariable (σ.scopeVariable_ok.mp hs)
    exact ⟨s', τ.scopeVariable_ok.mpr hs', hvar⟩
  scopeFunction {σ τ n count r} h hr := by
    obtain ⟨r', hr', hfunction⟩ := h.findFunction (σ.scopeFunction_ok.mp hr)
    exact ⟨r', τ.scopeFunction_ok.mpr hr', hfunction⟩
  memberVariable {σ τ t t' n s} h ht hs := by
    rw [h.membersOfType ht]
    rw [Store.memberVariable_ok] at hs
    obtain ⟨s', hs', hvar⟩ := exists_of_rel ((h.tables _).slot? Eq.symm n) hs
    exact ⟨s', τ.memberVariable_ok.mpr hs', hvar⟩
  memberFunction {σ τ t t' n count r} h ht hr := by
    rw [h.membersOfType ht]
    rw [Store.memberFunction_ok] at hr
    obtain ⟨r', hr', hfunction⟩ := exists_of_rel ((h.tables _).routine? n count) hr
    exact ⟨r', τ.memberFunction_ok.mpr hr', hfunction⟩
  addVariable h ht hfree :=
    ⟨none_of_rel ((h.tables _).slot? Eq.symm _) hfree,
      h.modifyTop ((h.tables _).addSlot ⟨rfl, rfl, ht⟩)⟩
  declareFunction h hts hr hd := by
    obtain ⟨f', hf, rfl, hd'⟩ := (h.tables _).declareFunction hts hr hd
    exact ⟨f', _, hd', hf, h.modifyTop ((h.tables _).addRoutine hf)⟩
  report _ h := ⟨h.registry, h.registry', h.top, h.top', h.tables⟩

theorem tree_names : (correspondence registered).tree.TypesBy Ty.name :=
  Correspondence.tree_typesBy (correspondence registered) fun h => h.1

/-! ### Running -/

/-- The tables of both runs are the same ones, and faults are the same. -/
def relocation : Relocation :=
  .here Eq (fun _ => rfl) Eq Encoding.takes_of_eq

/-- A run looks neither at annotations nor at the types that declarations name. -/
theorem looser_code : omission.Looser relocation.code where
  literals _ := trivial
  renamings h n := by rw [← h n]; rfl
  typeNames _ _ := trivial
  types _ _ := trivial
  bound _ _ := trivial
  callee _ _ := trivial

/-! ### Leaving types to be inferred -/

variable {s s' : Source} {host : Host}

/-- **Declared types that are those of the values may as well be inferred.** If a source passes the
check, so does each one that leaves names of types out where the value is annotated with a type of
that name. Then all nodes have types of the same names, and so have the variables and functions with
which they are annotated. Both sources run the same: they have the same value, or are stopped by the
same fault, and leave the same values in all variables and the same output. -/
theorem inference_unobservable (h : (s.analyze host σ).verdict = .ok ())
    (hs : (s.analyze host σ).tree.Alike omission s') :
    (s'.analyze host σ).verdict = .ok () ∧
    List.Forall₂ (Node.SameBy Ty.name) (s.analyze host σ).tree.walk
      (s'.analyze host σ).tree.walk ∧
    ∀ fuel, EndsSame Store.SameValues (s.evaluate host fuel σ) (s'.evaluate host fuel σ) := by
  have spec := σ.newPass_spec host.parent host.registry none
  obtain ⟨verdict, tree⟩ := (lawful _ _).checkTree (stores_refl spec.top) hs h
  refine ⟨verdict, tree.walk tree_names, fun fuel => ?_⟩
  have alike : s.Alike relocation.code s' :=
    hs.of_bare looser_code (Pass.check_bare _ s _).symm
  have together : relocation.pairing.Together relocation.pairing.Same
      ((host.evaluator σ).1.evaluate fuel s) ((host.evaluator σ).1.evaluate fuel s') :=
    relocation.pairing_lawful.evaluate (Relocation.passes_refl _) alike
  exact (Relocation.endsSame Eq.symm Eq.symm (fun h => h.1.symm)
    (together (Relocation.stores_refl _ rfl))).mono fun _ _ h => h.sameValues Eq.symm

/-! ### A point in the plane -/

/-- A registered type. -/
def point : Ty :=
  ⟨"Point", "Point", 18⟩

/-- What a function of the host promises: a type of the same name, without members of its own. -/
def promised : Ty :=
  ⟨"Point", "Point", 19⟩

/-- The function of the host. -/
def origin : Function :=
  ⟨"origin", "origin", [], some promised, 20⟩

/-- A coordinate of points. -/
def coordinate : Variable :=
  ⟨"x", "x", some Builtin.integer.type, .table 18⟩

/-- A registry that knows points, and a scope with a function that answers one. -/
def plane : Store :=
  { Store.initial.newRegistry.2 with
    tables := Store.initial.newRegistry.2.tables ++
      #[⟨[⟨coordinate, .integer 3⟩], []⟩, Table.empty,
        ⟨[], [⟨origin, some (.host (.constant (.object ⟨0, point, 18⟩)) false)⟩]⟩]
    registries := #[Store.initial.newRegistry.2.registry 0 ++ [point]]
    objects := 1 }

/-- The host that gives its scope and its registry. -/
def planeHost : Host :=
  ⟨some ⟨20, []⟩, some 0⟩

/-- A field that holds a point, and an entry point that answers its coordinate by way of a local
variable. The field and the variable name types or not. -/
def locating (pointName integerName : Option Text) : Source where
  fields := [.field ⟨"p", pointName, some (.call "origin" [] none none), none⟩]
  methods := [.method ⟨"main", [], [], some "Integer",
    [.declaration "n" integerName
        (some (.binary "+" (.member (.access "p" none none) "x" none none)
          (.literal (.integer 1) none) none)) none,
      .returning (.access "n" none none)], none⟩]

/-- The coordinate of the point in the field, as the check annotates it. -/
def located : Expr :=
  .member (.access "p" (some ⟨"p", "p", some point, .table 21⟩) (some point)) "x"
    (some coordinate) coordinate.type

/-- The tree that the check leaves behind. -/
def locatedTree : Source where
  fields := [.field ⟨"p", "Point", some (.call "origin" [] (some origin) (some promised)),
    some ⟨"p", "p", some point, .table 21⟩⟩]
  methods := [.method ⟨"main", [], [], some "Integer",
    [.declaration "n" "Integer"
        (some (.binary "+" located (.literal (.integer 1) (some Builtin.integer.type))
          (some Builtin.integer.type)))
        (some ⟨"n", "n", some ⟨"Integer", "int", 14⟩, .block 0⟩),
      .returning (.access "n" (some ⟨"n", "n", some ⟨"Integer", "int", 14⟩, .block 0⟩)
        (some ⟨"Integer", "int", 14⟩))],
    some ⟨"main", "main", [], some ⟨"Integer", "int", 14⟩, 21⟩⟩]

theorem tree_locating : ((locating "Point" "Integer").analyze planeHost plane).tree
    = locatedTree :=
  rfl

theorem omission_locating : locatedTree.Alike omission (locating none none) := by
  have same : omission.renamings .same := fun _ => rfl
  have inferred {e : Expr} (t : Ty) (h : e.type? = some t) :
      omission.typeNames (some e) (some t.name) none := .inr ⟨⟨e, t, rfl, h, rfl⟩, rfl⟩
  refine ⟨.cons
      (.field ⟨rfl, inferred promised rfl, .some (.call .nil trivial trivial), trivial⟩) .nil,
    .cons (.method same ⟨rfl, rfl, fun _ h => h.elim, rfl, rfl, ?_, trivial⟩) .nil⟩
  refine .cons (.declaration (.some (.binary ?_ (.literal trivial trivial) trivial))
    (inferred Builtin.integer.type rfl) trivial)
    (.cons (.returning (.access (.inr rfl) trivial trivial)) .nil)
  exact .member (.access (.inr rfl) trivial trivial) trivial trivial

/-- Neither the point nor its coordinate needs a type: the field has the type that the function of
the host promises then, and the coordinate is still found. -/
theorem inference_unobservable_locating :
    ((locating "Point" "Integer").analyze planeHost plane).verdict = .ok () ∧
    ((locating "Point" "Integer").analyze planeHost plane).tree.Alike omission
      (locating none none) ∧
    ((locating none none).analyze planeHost plane).verdict = .ok () ∧
    ∃ τ, (locating none none).evaluate planeHost 20 plane = .ok (.integer 4) τ := by
  have accepted : ((locating "Point" "Integer").analyze planeHost plane).verdict = .ok () := by
    decide +kernel
  have omitted := tree_locating ▸ omission_locating
  obtain ⟨verdict, -, ends⟩ := inference_unobservable accepted omitted
  obtain ⟨σ, run⟩ := Eval.exists_of_answer? (a := Value.integer 4) (σ := plane)
    (x := (locating "Point" "Integer").evaluate planeHost 20) (by decide +kernel)
  have same := ends 20
  rw [run] at same
  generalize (locating none none).evaluate planeHost 20 plane = r at same
  cases same with
  | answer _ => exact ⟨accepted, omitted, verdict, _, rfl⟩

end Inferred

end Parlance
