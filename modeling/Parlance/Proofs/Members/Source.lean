/-
A checked source on the premises of a host, field by field, and then its methods.

Both passes leave the premises alone while they declare, since each declares in a table of its own.
While fields are declared neither table has a function but `print`, and each field adds a variable
to both.  The methods are different: the check looks at a body when it has declared the methods
before it, and the evaluation runs none before it has declared them all.  So they are taken
together, and their bodies are held against the table that the check has at the end.
-/
import Parlance.Proofs.Checking.Confined
import Parlance.Proofs.Kinds.Source
import Parlance.Proofs.Members.Reached

namespace Parlance

/-! ### What a pass declares -/

variable {p : Premises} {checker evaluator pass : Pass} {σ τ ρ ρ' : Store}

theorem Pass.AddsField.gains {place : FieldPlace} {v : Variable}
    (h : pass.AddsField σ place v τ) (htop : σ.HasTable pass.scope.top) :
    σ.Gains pass.scope.top [⟨v, .nil⟩] [] τ :=
  h.store ▸ .addSlot htop _

theorem Pass.AddsMethod.gains {m : Method} {f : Function} (h : pass.AddsMethod σ m f τ)
    (htop : σ.HasTable pass.scope.top) : σ.Gains pass.scope.top [] [⟨f, none⟩] τ := by
  obtain ⟨record, hstore⟩ := h.store
  exact hstore ▸ (Store.Gains.addRoutine htop _).report record

/-- A method that is declared adds its function, and changes nothing else. -/
theorem Pass.declareMethodPlace_gains {place : MethodPlace} (htop : σ.HasTable pass.scope.top)
    (h : pass.declareMethodPlace place σ = .ok () τ) :
    ∃ r, σ.Gains pass.scope.top [] [r] τ ∧ place.Runs pass r := by
  have method (m : Method) (hm : place.method? = some m) (h : pass.declareMethod m σ = .ok () τ) :
      ∃ r, σ.Gains pass.scope.top [] [r] τ ∧ place.Runs pass r := by
    obtain ⟨⟨f, υ⟩, ρ, hr, hset⟩ := Eval.bind_ok.mp h
    obtain ⟨rfl, hd⟩ := Eval.read_eq hr
    cases hset
    unfold Store.declareFunction at hd
    split at hd
    · cases hd
    · cases hd
      exact ⟨pass.ownRoutine m, (Store.Gains.addRoutine htop (pass.ownRoutine m)).report _,
        m, hm, rfl, rfl, List.length_replicate⟩
  cases place with
  | method m => exact method m rfl h
  | untyped m => exact method m rfl h
  | hole g => cases h

theorem Pass.declareMethods_gains {places : List MethodPlace} (htop : σ.HasTable pass.scope.top)
    (h : places.forM pass.declareMethodPlace σ = .ok () τ) :
    ∃ rs, σ.Gains pass.scope.top [] rs τ ∧ List.Forall₂ (MethodPlace.Runs pass) places rs := by
  induction places generalizing σ with
  | nil =>
    cases h
    exact ⟨[], .refl _ _, .nil⟩
  | cons place places ih =>
    obtain ⟨u, ρ, hplace, hplaces⟩ := Eval.bind_ok.mp h
    obtain ⟨r, hg, hr⟩ := declareMethodPlace_gains htop hplace
    obtain ⟨rs, hgs, hrs⟩ := ih (hg.hasTable htop) hplaces
    exact ⟨r :: rs, hg.trans hgs, .cons hr hrs⟩

/-! ### The check -/

namespace Premises

variable {top : TableId} {ss : List Slot} {rs : List Routine}

theorem Same.of_gains (h : p.Same σ) (htop : ¬p.Has top) (hg : σ.Gains top ss rs τ) : p.Same τ :=
  h.of_other (by rw [Store.registry, hg.registries, Store.registry]) (Nat.le_of_eq hg.size.symm)
    fun id hid => hg.other id fun he => htop (he ▸ hid)

theorem Kept.of_gains (h : p.Kept σ) (htop : ¬p.Has top) (hg : σ.Gains top ss rs τ) : p.Kept τ :=
  h.of_other (by rw [Store.registry, hg.registries, Store.registry]) (Nat.le_of_eq hg.size.symm)
    fun id hid => hg.other id fun he => htop (he ▸ hid)

end Premises

/-- The pass checks on the premises, and has come to that store. Its own table is none of
theirs. -/
structure Pass.Checks (checker : Pass) (p : Premises) (σ : Store) : Prop where
  on : checker.On p
  own : ¬p.Has checker.scope.top
  top : σ.HasTable checker.scope.top
  same : p.Same σ
  distinct : (σ.table checker.scope.top).Distinct

namespace Pass.Checks

theorem gains {ss : List Slot} {rs : List Routine} (h : checker.Checks p σ)
    (hg : σ.Gains checker.scope.top ss rs τ) (hd : (τ.table checker.scope.top).Distinct) :
    checker.Checks p τ :=
  ⟨h.on, h.own, hg.hasTable h.top, h.same.of_gains h.own hg, hd⟩

theorem field {place : FieldPlace} {v : Variable} (h : checker.Checks p σ)
    (ha : checker.AddsField σ place v τ) : checker.Checks p τ := by
  refine h.gains (ha.gains h.top) ?_
  rw [ha.store, Pass.addVariable, Store.table_modifyTable_self h.top]
  exact h.distinct.addSlot ha.free

theorem method {m : Method} {f : Function} (h : checker.Checks p σ)
    (ha : checker.AddsMethod σ m f τ) : checker.Checks p τ := by
  refine h.gains (ha.gains h.top) ?_
  obtain ⟨record, rfl⟩ := ha.store
  show (Store.table (σ.modifyTable _ _) _).Distinct
  rw [Store.table_modifyTable_self h.top]
  exact h.distinct.addRoutine ha.free

/-- Fields that are in order add variables alone. -/
theorem fields {places places' : List FieldPlace} (h : checker.Checks p σ)
    (hin : InOrder checker.FieldTyped σ places places' τ) : checker.Checks p τ := by
  refine hin.preserves (P := checker.Checks p) (fun hf hσ => ?_) h
  obtain ⟨v, ha⟩ := hf.adds
  exact hσ.field ha

/-- Methods that are in order add functions alone. -/
theorem methods {places places' : List MethodPlace} (h : checker.Checks p σ)
    (hin : InOrder checker.MethodTyped σ places places' τ) :
    checker.Checks p τ ∧ ∃ fs : List Function,
      σ.Gains checker.scope.top [] (fs.map fun f => ⟨f, none⟩) τ ∧
      List.Forall₂ (MethodPlace.Binds checker.scope.top) places' fs := by
  induction hin with
  | nil => exact ⟨h, [], .refl _ _, .nil⟩
  | cons hm _ ih =>
    obtain ⟨m, f, rfl, ha⟩ := hm.adds
    obtain ⟨hτ, fs, hg, hbinds⟩ := ih (h.method ha)
    exact ⟨hτ, f :: fs, (ha.gains h.top).trans hg, .cons ha.binds hbinds⟩

end Pass.Checks

/-! ### Guests -/

/-- What is near a covered place is not hidden in the guest's table, if what that place does not
have there hides nothing. -/
theorem Node.TypedNear.unhidden {w : Guest} {c : Context} {n : Node} (h : n.TypedNear c)
    (hc : w.Covers c)
    (hlater : ∀ name arguments f t, n = .expr (.call name arguments (some f) t) →
      ∀ s ∈ w.table.routines, s ∉ (c.store.table c.pass.scope.top).routines →
        s.function.name = f.name → s.function.arity = f.arity → s.function.SameSignature f) :
    w.Unhidden n := by
  unfold Guest.Unhidden
  split
  · next name arguments f t =>
    intro s hs
    cases h with
    | @expr d _ _ hp hst ht =>
      cases ht with
      | call has hf _ =>
        rw [← has.length_eq] at hf
        have hname := Context.name_of_functionOf hf
        have harity := Context.arity_of_functionOf hf
        obtain ⟨r, hr, rfl⟩ := Context.functionOf_ok.mp hf
        rw [hp, hst, Scope.tables, Store.findFunction_cons] at hr
        obtain ⟨hmem, hn, ha⟩ := Table.mem_of_routine? hs
        cases hown : (c.store.table c.pass.scope.top).routine? name arguments.length with
        | some r' =>
          obtain ⟨more, hmore⟩ := hc.routines
          have hfound : w.table.routine? name arguments.length = some r' := by
            rw [Table.routine?, ← hmore, List.find?_append]
            exact Option.or_eq_some_iff.mpr (.inl hown)
          rw [hown, Option.some_or] at hr
          cases hr
          cases hs.symm.trans hfound
          exact ⟨rfl, rfl⟩
        | none =>
          refine hlater _ _ _ _ rfl s hmem (fun hin => ?_) (hn.trans hname.symm)
            (ha.trans harity.symm)
          exact List.find?_eq_none.mp hown s hin (by simpa using ⟨hn, ha⟩)
  · trivial

/-- The guest of what the check has built up in a store. -/
def Pass.Checks.guest (h : checker.Checks p σ) (hp : p.Sound) (he : evaluator.On p)
    (hfresh : ¬p.store.HasTable evaluator.scope.top) : Guest :=
  ⟨p, hp, σ.table checker.scope.top, h.distinct, evaluator, he, hfresh⟩

section Guest

variable {hp : p.Sound} {he : evaluator.On p} {hfresh : ¬p.store.HasTable evaluator.scope.top}

/-- A place outside of all blocks is covered by what the check has built up. -/
theorem Pass.Checks.covers (h : checker.Checks p σ) :
    (h.guest hp he hfresh).Covers (checker.context σ) :=
  ⟨h.on, h.same, rfl, List.prefix_refl _⟩

theorem Pass.Checks.minds (h : checker.Checks p σ) {nodes : List Node}
    (hshared : ∀ n ∈ nodes, n.Shared p) (hnear : ∀ n ∈ nodes, n.TypedNear (checker.context σ)) :
    (h.guest hp he hfresh).Minds nodes :=
  fun n hn => ⟨hshared n hn, (hnear n hn).unhidden h.covers
    fun _ _ _ _ _ _ hs hnot _ _ => absurd hs hnot⟩

/-! ### Fields -/

/-- Neither pass has bound a function but `print`. -/
structure Printing (checker evaluator : Pass) (σ ρ : Store) : Prop where
  checked : (σ.table checker.scope.top).routines = [⟨printer checker.scope.top, none⟩]
  running : (ρ.table evaluator.scope.top).routines = [⟨printer evaluator.scope.top, some .print⟩]

theorem Printing.of_same (h : Printing checker evaluator σ ρ) (hσ : σ.SameFunctions τ)
    (hρ : ρ.SameFunctions ρ') : Printing checker evaluator τ ρ' :=
  ⟨(hσ.routines _).trans h.checked, (hρ.routines _).trans h.running⟩

/-- The stores of a guest with no function but `print`. -/
theorem Printing.models (h : Printing checker evaluator σ ρ) (hσ : checker.Checks p σ)
    (hk : p.Kept ρ) (htop : ρ.HasTable evaluator.scope.top)
    (hslots : List.Forall₂ (hσ.guest hp he hfresh).KeepsSlot (σ.table checker.scope.top).slots
      (ρ.table evaluator.scope.top).slots) : (hσ.guest hp he hfresh).Models ρ := by
  refine ⟨hk, htop, hslots, ?_⟩
  show List.Forall₂ _ (σ.table checker.scope.top).routines (ρ.table evaluator.scope.top).routines
  rw [h.checked, h.running]
  exact .cons (.print rfl rfl rfl) .nil

/-- The value of a field in order is of the type that the field has been given. -/
theorem Declared.initial_gives {f : Field} {t : Option Ty} {fuel : Nat} (hσ : checker.Checks p σ)
    (hm : (hσ.guest hp he hfresh).Models ρ)
    (hd : Declared (checker.context σ) f.typeName f.value t)
    (hshared : ∀ n ∈ walkOption f.value, n.Shared p) :
    (hσ.guest hp he hfresh).Gives (evaluator.initialValue fuel f.value) ρ (p.Fits t) := by
  have sound := (hσ.guest hp he hfresh).soundAt fuel
  have hminds : (hσ.guest hp he hfresh).Minds (walkOption f.value) :=
    hσ.minds hshared fun n hn => .of_part (hd.exists_part hn)
  have hat : (hσ.guest hp he hfresh).At (checker.context σ) [] ρ := ⟨hσ.covers, .nil, hm⟩
  obtain ⟨name, typeName, value, bound⟩ := f
  cases hd with
  | unset _ => exact Eval.gives_pure hm .nil
  | inferred h => exact sound.eval hat h hminds
  | given _ h ht => exact (sound.eval hat h hminds).mono fun x hx => hx.moved ht

/-- Evaluating a field that is in order, and declaring it. -/
theorem Pass.AddsField.models {place : FieldPlace} {v : Variable} {fuel : Nat}
    (h : checker.AddsField σ place v τ) (hσ : checker.Checks p σ)
    (hprint : Printing checker evaluator σ ρ) (hm : (hσ.guest hp he hfresh).Models ρ)
    (hshared : ∀ n ∈ place.walk, n.Shared p)
    (hd : evaluator.declareFieldPlace fuel place ρ = .ok () ρ') :
    Printing checker evaluator τ ρ' ∧ ((hσ.field h).guest hp he hfresh).Models ρ' := by
  have hsame : ρ.SameFunctions ρ' :=
    stable_declareFields evaluator fuel [place] (Eval.bind_ok.mpr ⟨_, _, hd, rfl⟩)
  have hprint' : Printing checker evaluator τ ρ' := hprint.of_same h.same hsame
  refine ⟨hprint', ?_⟩
  obtain ⟨f, hplace, hb, hname, hdecl⟩ := h.bound
  rw [FieldPlace.walk_of_field? hplace] at hshared
  rw [(FieldPlace.eq_of_field? hplace evaluator fuel).1] at hd
  obtain ⟨x, ρ₁, hx, hrest⟩ := Eval.bind_ok.mp hd
  obtain ⟨hm₁, hfits⟩ :=
    hdecl.initial_gives hσ hm (fun n hn => hshared n (List.mem_cons_of_mem _ hn)) hx
  have hfree : (ρ₁.table evaluator.scope.top).slot? f.name = none :=
    none_of_rel (hm₁.rel_slot? f.name) (hname ▸ h.free)
  obtain ⟨r, hr, hhome, hdeclare⟩ := Eval.declare_outside (x := x) hfree
  rw [Eval.bind_apply hdeclare] at hrest
  cases hrest
  have htop : ρ₁.HasTable evaluator.scope.top := hm₁.top
  have hown : ¬p.Has evaluator.scope.top := fun hid => hfresh (hp.kept.hasTable _ hid)
  have hg := Store.Gains.addSlot htop ⟨r, x⟩
  refine hprint'.models _ (hm₁.kept.of_gains hown hg) (hg.hasTable htop) ?_
  rw [(h.gains hσ.top).own, hg.own]
  refine List.rel_append (hm₁.slots.imp fun _ _ hk => ⟨hk.name, hk.home, hk.value⟩) (.cons ?_ .nil)
  exact ⟨hr.trans hname, hhome, hfits⟩

/-- Evaluating and declaring fields that are in order, one after the other. -/
theorem InOrder.fields_models {places places' : List FieldPlace} {fuel : Nat}
    (h : InOrder checker.FieldTyped σ places places' τ) (hσ : checker.Checks p σ)
    (hprint : Printing checker evaluator σ ρ) (hm : (hσ.guest hp he hfresh).Models ρ)
    (hshared : ∀ n ∈ places'.flatMap FieldPlace.walk, n.Shared p)
    (hd : places'.forM (evaluator.declareFieldPlace fuel) ρ = .ok () ρ') :
    Printing checker evaluator τ ρ' ∧
      ∃ hτ : checker.Checks p τ, (hτ.guest hp he hfresh).Models ρ' := by
  induction h generalizing ρ with
  | nil =>
    cases hd
    exact ⟨hprint, hσ, hm⟩
  | @cons σ τ υ place place' places places' hplace _ ih =>
    obtain ⟨v, ha⟩ := hplace.adds
    rw [List.flatMap_cons] at hshared
    obtain ⟨hfirst, hrest⟩ := List.forall_mem_append.mp hshared
    obtain ⟨_, ρ₁, hd₁, hd₂⟩ := Eval.bind_ok.mp hd
    obtain ⟨hprint', hm'⟩ := ha.models hσ hprint hm hfirst hd₁
    exact ih (hσ.field ha) hprint' hm' hrest hd₂

/-! ### Methods -/

/-- What the annotations of a tree say is what is found: a member wherever it may be looked up, and
a call also where a method hides what it is annotated with. -/
structure Source.Unambiguous (tree : Source) (p : Premises) : Prop where
  members : ∀ n ∈ tree.walk, n.Shared p
  calls : ∀ {m m' : Method} {name : Name} {arguments : List Expr} {f g : Function} {t : Option Ty},
    .method m ∈ tree.methods → .expr (.call name arguments (some f) t) ∈ walkStmts m.body →
    .method m' ∈ tree.methods → m'.HasKey f → m'.bound = some g → g.SameSignature f

variable {tree : Source} {places : List MethodPlace}

/-- The body of a method is typed in the guest of all that the check has built up. -/
theorem Guest.typed_method (h : InOrder checker.MethodTyped σ places tree.methods τ)
    (hσ : checker.Checks p σ) (hτ : checker.Checks p τ) (hu : tree.Unambiguous p) {m : Method}
    {f : Function} (hm : .method m ∈ tree.methods) (hf : m.bound = some f) :
    (hτ.guest hp he hfresh).Typed m f := by
  obtain ⟨before, after, hsplit⟩ := List.append_of_mem hm
  obtain ⟨τ₁, τ₂, _, _, _, hbefore, hplace, hafter⟩ := h.split hsplit
  obtain ⟨_, _, ⟨⟩, ha⟩ := hplace.adds
  cases hf.symm.trans ha.bound
  obtain ⟨types, result, block, hl, hpt, hr, -, -, hblock, hs⟩ := ha.body
  have hσ₂ := (hσ.methods hbefore).1.method ha
  obtain ⟨-, later, hlater, hbinds⟩ := hσ₂.methods hafter
  have hcov : (hτ.guest hp he hfresh).Covers (checker.bodyContext τ₂ block result) := by
    refine ⟨hσ₂.on, hσ₂.same, ?_, ?_⟩
    · show (τ₂.table checker.scope.top).slots = (τ.table checker.scope.top).slots
      rw [hlater.own, List.append_nil]
    · show (τ₂.table checker.scope.top).routines <+: (τ.table checker.scope.top).routines
      rw [hlater.own]
      exact List.prefix_append _ _
  refine .intro hf hcov hl hpt hr hblock rfl rfl hs fun n hn => ⟨hu.members n ?_, ?_⟩
  · exact List.mem_cons_of_mem _ (List.mem_append_right _
      (List.mem_flatMap.mpr ⟨_, hm, List.mem_cons_of_mem _ hn⟩))
  · refine (hs.near hn).unhidden hcov fun name arguments f t hcall s hmem hnot hname harity => ?_
    -- what this place does not have is a method that comes later
    have hmem : s ∈ (τ.table checker.scope.top).routines := hmem
    rw [hlater.own] at hmem
    obtain ⟨g, hg, rfl⟩ := List.mem_map.mp ((List.mem_append.mp hmem).resolve_left hnot)
    obtain ⟨_, hplace', m', rfl, hb, hkey, -⟩ := exists_left_of_forall₂ hbinds hg
    have hm' : .method m' ∈ tree.methods :=
      hsplit ▸ List.mem_append_right _ (List.mem_cons_of_mem _ hplace')
    exact hu.calls hm (hcall ▸ hn) hm' ⟨hname.symm.trans hkey.1, harity.symm.trans hkey.2⟩ hb

/-- Declaring methods that are in order. -/
theorem InOrder.methods_models (h : InOrder checker.MethodTyped σ places tree.methods τ)
    (hσ : checker.Checks p σ) (hprint : Printing checker evaluator σ ρ)
    (hm : (hσ.guest hp he hfresh).Models ρ) (hu : tree.Unambiguous p)
    (hd : tree.methods.forM evaluator.declareMethodPlace ρ = .ok () ρ') :
    ∃ hτ : checker.Checks p τ, (hτ.guest hp he hfresh).Models ρ' := by
  have htop : ρ.HasTable evaluator.scope.top := hm.top
  have hown : ¬p.Has evaluator.scope.top := fun hid => hfresh (hp.kept.hasTable _ hid)
  obtain ⟨hτ, fs, hg, hbinds⟩ := hσ.methods h
  obtain ⟨rs, hg', hruns⟩ := Pass.declareMethods_gains htop hd
  refine ⟨hτ, hm.kept.of_gains hown hg', hg'.hasTable htop, ?_, ?_⟩
  · show List.Forall₂ _ (τ.table checker.scope.top).slots (ρ'.table evaluator.scope.top).slots
    rw [hg.own, hg'.own, List.append_nil, List.append_nil]
    exact hm.slots.imp fun _ _ hk => ⟨hk.name, hk.home, hk.value⟩
  · show List.Forall₂ _ (τ.table checker.scope.top).routines
      (ρ'.table evaluator.scope.top).routines
    rw [hg.own, hg'.own, hprint.checked, hprint.running]
    refine .cons (.print rfl rfl rfl) (List.forall₂_map_left_iff.mpr ?_)
    refine (forall₂_through hbinds hruns).imp ?_
    rintro f ⟨g, _⟩ ⟨_, hmem, ⟨m, rfl, hf, hkey, -⟩, _, ⟨⟩, rfl, hkey'⟩
    exact .method (hkey'.1.trans hkey.1.symm) (hkey'.2.trans hkey.2.symm)
      (Guest.typed_method h hσ hτ hu hmem hf)

end Guest

end Parlance
