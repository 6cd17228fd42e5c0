/-
Members of receivers in a run.

The check looks for a member in the table of the type that the receiver is of.  The evaluation looks
in the table of the value: its own if it is an object, and otherwise that of its kind.  On the
premises of a host that keeps to what it has declared both have the member, since a value in
a place of some type is of a registered type that the place takes.  That type may still be another
one, for `Any` and `Comparable` take values of several types; so the member has to be bound alike in
all that are taken.

The premises may be those of the store that the check began in.  Nothing is asked of what has
happened between the check and the evaluation, but that the premises are kept.
-/
import Mathlib.Tactic.FinCases
import Parlance.Proofs.Calls.Agreement
import Parlance.Proofs.Members.Source

namespace Parlance

/-- What the host offers in a store, with that registry. -/
def Host.premises (host : Host) (R : RegistryId) (σ : Store) : Premises :=
  ⟨host.tables, R, σ⟩

/-! ### New passes -/

/-- A new pass with a registry from the host asks that one, and makes none. -/
theorem Store.newPass_given (σ : Store) (parent : Option Scope) (R : RegistryId)
    (print? : Option Implementation) :
    (σ.newPass parent (some R) print?).1.registry = R ∧
      (σ.newPass parent (some R) print?).2.registries = σ.registries := by
  rw [newPass_eq rfl]
  exact ⟨rfl, rfl⟩

section NewPass

variable {p : Premises} {host : Host} {R : RegistryId} {σ τ υ : Store} {pass : Pass}
  {parent : Option Scope} {print? : Option Implementation}

theorem Store.NewPass.apart (hn : τ.NewPass parent print? pass υ) (h : p.Same τ) {id : TableId}
    (hid : p.Has id) : υ.table id = τ.table id :=
  hn.other id fun he => hn.fresh (he ▸ h.hasTable id hid)

theorem Store.NewPass.kept (hn : τ.NewPass parent print? pass υ)
    (hr : υ.registries = τ.registries) (h : p.Kept τ) : p.Kept υ :=
  h.of_other (by rw [Store.registry, hr, Store.registry]) hn.keeps.size fun _ => hn.apart h.toSame

theorem Store.NewPass.checks (hn : τ.NewPass parent print? pass υ)
    (hr : υ.registries = τ.registries) (hon : pass.On p) (h : p.Same τ) : pass.Checks p υ := by
  refine ⟨hon, fun hid => hn.fresh (h.hasTable _ hid), hn.top, ?_, ?_⟩
  · exact h.of_other (by rw [Store.registry, hr, Store.registry]) hn.keeps.size fun _ => hn.apart h
  · rw [hn.table]
    exact Table.distinct_empty.addRoutine (r := ⟨printer pass.scope.top, print?⟩) rfl

theorem Host.checker_on (hr : host.registry = some R) (σ τ : Store) :
    (host.checker τ).1.On (host.premises R σ) := by
  refine ⟨?_, (host.checker_spec τ).outer⟩
  rw [checker, hr]
  exact (τ.newPass_given host.parent R .none).1

theorem Host.evaluator_on (hr : host.registry = some R) (σ τ : Store) :
    (host.evaluator τ).1.On (host.premises R σ) := by
  refine ⟨?_, (host.evaluator_spec τ).outer⟩
  rw [evaluator, hr]
  exact (τ.newPass_given host.parent R _).1

theorem Host.registries_checker (hr : host.registry = some R) (σ : Store) :
    (host.checker σ).2.registries = σ.registries := by
  rw [checker, hr]
  exact (σ.newPass_given host.parent R .none).2

theorem Host.registries_evaluator (hr : host.registry = some R) (τ : Store) :
    (host.evaluator τ).2.registries = τ.registries := by
  rw [evaluator, hr]
  exact (τ.newPass_given host.parent R _).2

/-- The evaluator's own table is made later than the premises. -/
theorem Host.evaluator_fresh (host : Host) (hsize : σ.tables.size ≤ τ.tables.size) :
    ¬σ.HasTable (host.evaluator τ).1.scope.top :=
  fun hid => (host.evaluator_spec τ).fresh (Nat.lt_of_lt_of_le hid hsize)

/-- Two new passes, one that checks and one that evaluates, begin with the same guest. -/
theorem Host.guest_models (hr : host.registry = some R) (hp : (host.premises R σ).Sound)
    (hτ : (host.premises R σ).Kept τ) (hsize : σ.tables.size ≤ τ.tables.size) :
    Printing (host.checker σ).1 (host.evaluator τ).1 (host.checker σ).2 (host.evaluator τ).2 ∧
      ∃ hσ : (host.checker σ).1.Checks (host.premises R σ) (host.checker σ).2,
        (hσ.guest hp (host.evaluator_on hr σ τ) (host.evaluator_fresh hsize)).Models
          (host.evaluator τ).2 := by
  have hnew := host.checker_spec σ
  have hnew' := host.evaluator_spec τ
  have hprint : Printing (host.checker σ).1 (host.evaluator τ).1 (host.checker σ).2
      (host.evaluator τ).2 :=
    ⟨congrArg Table.routines hnew.table, congrArg Table.routines hnew'.table⟩
  have hσ := hnew.checks (host.registries_checker hr σ) (host.checker_on hr σ σ) hp.kept.toSame
  refine ⟨hprint, hσ, ?_⟩
  refine hprint.models hσ (hnew'.kept (host.registries_evaluator hr τ) hτ) hnew'.top ?_
  rw [hnew.table, hnew'.table]
  exact .nil

end NewPass

namespace Source

variable {s : Source} {host : Host} {R : RegistryId} {σ τ : Store}

/-! ### Runs -/

section Run

variable (hr : host.registry = some R) (hp : (host.premises R σ).Sound)
  (h : (s.analyze host σ).verdict = .ok ())
  (hu : (s.analyze host σ).tree.Unambiguous (host.premises R σ))
  (hτ : (host.premises R σ).Kept τ) (hsize : σ.tables.size ≤ τ.tables.size)

include hr hp h hu hτ hsize

/-- An evaluation begins with moments that are proper for a guest of the host. -/
theorem begins_proper {fuel : Nat} {m : Moment}
    (hb : (s.analyze host σ).tree.Begins host fuel τ m) :
    ∃ w : Guest, w.premises = host.premises R σ ∧ w.Proper m := by
  obtain ⟨σ₁, σ₂, _, htyped, -⟩ := Pass.check_typed h
  obtain ⟨hprint, hσ, hm⟩ := host.guest_models hr hp hτ hsize
  have hshared : ∀ n ∈ (s.analyze host σ).tree.fields.flatMap FieldPlace.walk,
      n.Shared (host.premises R σ) := fun n hn =>
    hu.members n (List.mem_cons_of_mem _ (List.mem_append_left _ hn))
  cases hb with
  | @field before after place e ρ hs hi hb =>
    rw [hs, List.flatMap_append, List.flatMap_cons] at hshared
    obtain ⟨hbefore, hplace⟩ := List.forall_mem_append.mp hshared
    obtain ⟨τ₁, τ₂, _, _, _, h₁, ht, -⟩ := htyped.fields.split hs
    obtain ⟨-, hτ₁, hm'⟩ := h₁.fields_models hσ hprint hm hbefore hb
    obtain ⟨v, ha⟩ := ht.adds
    obtain ⟨f, hf, -, -, hd⟩ := ha.bound
    rw [FieldPlace.initial?, hf, Option.bind_some] at hi
    rw [FieldPlace.walk_of_field? hf, hi] at hplace
    rw [hi] at hd
    obtain ⟨t, hte⟩ := hd.value_typed
    refine ⟨hτ₁.guest hp _ _, rfl, rfl, .nil, hm', .expr hτ₁.covers rfl hte ?_⟩
    refine hτ₁.minds (fun n hn => ?_) fun n hn => .of_part (hte.exists_part hn)
    exact hplace n (List.mem_append_left _ (List.mem_cons_of_mem _ hn))
  | @main main ρ hd hmain =>
    obtain ⟨_, ρ₁, hfields, hmethods⟩ := Eval.bind_ok.mp hd
    obtain ⟨hprint', hσ₁, hm₁⟩ := htyped.fields.fields_models hσ hprint hm hshared hfields
    obtain ⟨hσ₂, hm₂⟩ := htyped.methods.methods_models hσ₁ hprint' hm₁ hu hmethods
    obtain ⟨t, ha⟩ := hm₂.answers_nothing hmain
    exact ⟨hσ₂.guest hp _ _, rfl, rfl, .nil, hm₂.report _, .invocation ha⟩

/-- Whatever the evaluation goes through is proper for a guest of the host, or inside of one of the
host's functions. -/
theorem reaches_proper {fuel : Nat} {m : Moment}
    (hm : (s.analyze host σ).tree.Reaches host fuel τ m) :
    (∃ w : Guest, w.premises = host.premises R σ ∧ w.Proper m) ∨
      (host.premises R σ).Apart m := by
  refine hm.of_steps (P := fun m => (∃ w : Guest, w.premises = host.premises R σ ∧ w.Proper m) ∨
    (host.premises R σ).Apart m) ?_ ?_
  · exact fun m₀ hb => .inl (begins_proper hr hp h hu hτ hsize hb)
  rintro m m' hl (⟨w, hw, hm⟩ | hapart)
  · exact (hm.leads hl).imp (fun hm' => ⟨w, hw, hm'⟩) fun hapart => hw ▸ hapart
  · exact .inr fun m'' hs => hapart m'' (.head hl hs)

/-- **A receiver's member that the check has accepted is there at run time.** An accepted source is
evaluated where the premises of the host are kept, and its annotations mean what is found.  Then
wherever its own code looks up a member of a value, the value has the member, or it is of kind
`Nil`. -/
theorem members_found {fuel : Nat} {m : Moment}
    (hm : (s.analyze host σ).tree.Reaches host fuel τ m)
    (hpass : m.activation.pass = (host.evaluator τ).1) : m.FindsMember := by
  rcases reaches_proper hr hp h hu hτ hsize hm with ⟨w, -, hproper⟩ | hapart
  · exact hproper.findsMember
  · have hid := hapart m .refl
    rw [hpass] at hid
    exact absurd hid (host.evaluator_fresh hsize)

end Run

/-- A check keeps the premises, so that the evaluation may follow it. -/
theorem analyze_kept (hr : host.registry = some R) (h : (host.premises R σ).Kept σ) :
    (host.premises R σ).Kept (s.analyze host σ).store ∧
      σ.tables.size ≤ (s.analyze host σ).store.tables.size := by
  have hnew := host.checker_spec σ
  obtain ⟨_, _, ss, rs, -, -, -, -, hgains, -⟩ := s.confined hnew.top
  have hown : ¬(host.premises R σ).Has (host.checker σ).1.scope.top :=
    fun hid => hnew.fresh (h.hasTable _ hid)
  exact ⟨(hnew.kept (host.registries_checker hr σ) h).of_gains hown hgains,
    hgains.size ▸ hnew.keeps.size⟩

end Source

/-! ### Offers -/

/-- What a host binds: members of built-in types, and variables and functions of its scope. -/
structure Offer where
  members : List (Builtin × Store.Declaration)
  bindings : List Store.Declaration

namespace Offer

/-- The registry, the only one there is. -/
def registry : RegistryId :=
  Store.initial.newRegistry.1

/-- The store with a member bound. -/
def addMember (σ : Store) (m : Builtin × Store.Declaration) : Store :=
  σ.declare (σ.membersOfType registry m.1.type) m.2

/-- The store in which all members are bound. -/
def stocked (o : Offer) : Store :=
  o.members.foldl addMember Store.initial.newRegistry.2

/-- The store in which everything is bound. -/
def store (o : Offer) : Store :=
  o.bindings.foldl (·.declare (o.stocked.newScope none).1.top ·) (o.stocked.newScope none).2

/-- The host that gives its scope and its registry. -/
def host (o : Offer) : Host :=
  ⟨some (o.stocked.newScope none).1, some registry⟩

/-- What it offers then. -/
def premises (o : Offer) : Premises :=
  o.host.premises registry o.store

/-! ### A greeting, and its length -/

/-- A greeting, and a member function of Strings that answers how long they are. -/
def greeting : Offer where
  members := [(.string, .routine "size" [some Builtin.string.type] (some Builtin.integer.type)
    (some (.host .length false)) none)]
  bindings := [.slot "greeting" (some Builtin.string.type) (.string "hello") none]

/-- The variable. -/
def greetingVariable : Variable :=
  ⟨"greeting", "greeting", some Builtin.string.type, .table 18⟩

/-- The member function. -/
def size : Function :=
  ⟨"size", "size", [some Builtin.string.type], some Builtin.integer.type, 17⟩

theorem scope_greeting : greeting.premises.scope = [18] := by
  cbv

theorem size_greeting : greeting.store.tables.size = 19 := by
  cbv

theorem has_greeting {id : TableId} (h : greeting.premises.Has id) : id ∈ List.range' 9 10 := by
  cases h with
  | scope h =>
    rw [scope_greeting, List.mem_singleton] at h
    subst h
    decide
  | @members t h =>
    have htypes : (greeting.store.registry registry).map Ty.members = List.range' 9 9 := by cbv
    have hmem := List.mem_map_of_mem (f := Ty.members) (List.mem_of_find?_eq_some h)
    change t.members ∈ (greeting.store.registry registry).map Ty.members at hmem
    rw [htypes, List.mem_range'_1] at hmem
    exact List.mem_range'_1.mpr ⟨hmem.1, Nat.lt_succ_of_lt hmem.2⟩

theorem slots_greeting {id : TableId} (h : greeting.premises.Has id) :
    ∀ s ∈ (greeting.store.table id).slots, s = ⟨greetingVariable, .string "hello"⟩ := by
  have hslots : ∀ id ∈ List.range' 9 10, (greeting.store.table id).slots
      = if id = 18 then [⟨greetingVariable, .string "hello"⟩] else [] := by
    intro id hid
    fin_cases hid <;> cbv
  rw [hslots id (has_greeting h)]
  split <;> simp

theorem routines_greeting {id : TableId} (h : greeting.premises.Has id) :
    ∀ r ∈ (greeting.store.table id).routines, id = 17 ∧ r = ⟨size, some (.host .length false)⟩ := by
  have hroutines : ∀ id ∈ List.range' 9 10, (greeting.store.table id).routines
      = if id = 17 then [⟨size, some (.host .length false)⟩] else [] := by
    intro id hid
    fin_cases hid <;> cbv
  rw [hroutines id (has_greeting h)]
  split <;> simp_all

theorem keyed_greeting (id : TableId) : greeting.store.Keyed id := by
  have hregistry : ∀ id, Store.initial.newRegistry.2.Keyed id := fun id =>
    (Store.keyed_opened .memory id).of_eq (Store.initial.table_registryOr none id)
  have hstocked : ∀ id, greeting.stocked.Keyed id := by
    rw [show greeting.stocked = Store.initial.newRegistry.2.declare
      (Store.initial.newRegistry.2.membersOfType registry Builtin.string.type)
      (.routine "size" [some Builtin.string.type] (some Builtin.integer.type)
        (some (.host .length false)) none) from rfl]
    exact Store.Keyed.declare hregistry (by decide +kernel) _
  have hscope : ∀ id, (greeting.stocked.newScope none).2.Keyed id := fun id =>
    (hstocked id).of_eq (greeting.stocked.table_newTable_eq id)
  rw [show greeting.store = (greeting.stocked.newScope none).2.declare
    (greeting.stocked.newScope none).1.top
    (.slot "greeting" (some Builtin.string.type) (.string "hello") none) from rfl]
  exact Store.Keyed.declare hscope greeting.stocked.hasTable_newTable _ id

theorem sound_greeting : greeting.premises.Sound where
  builtins b := by
    have hall : ∀ b ∈ Builtin.all, (greeting.premises.type? b.name).isSome := by decide +kernel
    exact Option.isSome_iff_exists.mp (hall b b.mem_all)
  keyed id _ := keyed_greeting id
  kept := by
    refine ⟨⟨rfl, fun id h => ?_, fun _ _ => rfl, fun _ _ => rfl⟩, fun id h s hs => ?_⟩
    · exact Nat.lt_of_lt_of_eq (List.mem_range'_1.mp (has_greeting h)).2 size_greeting.symm
    · rw [slots_greeting h s hs]
      exact .of_hostless nofun (by decide)
  functions id hid r hr := by
    obtain ⟨rfl, -⟩ := routines_greeting (.scope hid) r hr
    rw [scope_greeting] at hid
    exact absurd hid (by decide)
  members t ht r hr owner arguments _ _ _ := by
    obtain ⟨-, rfl⟩ := routines_greeting (.members ht) r hr
    exact Premises.keeps_of_reads (Deed.onlyAnswers_given fun _ =>
      .of_hostless nofun (Ty.admits_of_kind rfl))

/-- An entry point that answers the length of the greeting. -/
def sizing : Source :=
  ⟨[], [.method ⟨"main", [], [], some "Integer",
    [.returning (.memberCall (.access "greeting" none none) "size" [] none none)], none⟩]⟩

/-- The greeting, as the check annotates it. -/
def sizeReceiver : Expr :=
  .access "greeting" (some greetingVariable) (some Builtin.string.type)

/-- The call of `size`. -/
def sizeCall : Expr :=
  .memberCall sizeReceiver "size" [] (some size) (some Builtin.integer.type)

/-- The entry point. -/
def sizingMain : Method :=
  ⟨"main", [], [], some "Integer", [.returning sizeCall],
    some ⟨"main", "main", [], some ⟨"Integer", "int", 14⟩, 19⟩⟩

/-- The tree that the check leaves behind. -/
def sizingTree : Source :=
  ⟨[], [.method sizingMain]⟩

theorem tree_sizing : (sizing.analyze greeting.host greeting.store).tree = sizingTree := by
  cbv

theorem unambiguous_sizing : sizingTree.Unambiguous greeting.premises where
  members n hn := by
    have hwalk : sizingTree.walk = [.source sizingTree, .method (.method sizingMain),
      .stmt (.returning sizeCall), .expr sizeCall, .expr sizeReceiver] := rfl
    simp only [hwalk, List.mem_cons, List.not_mem_nil, or_false] at hn
    rcases hn with rfl | rfl | rfl | rfl | rfl
    case inr.inr.inr.inl =>
      rintro t ⟨⟩
      refine Premises.shares_of_exact (by decide) (by decide) fun u hu hn => ?_
      have hnil : greeting.premises.type? Builtin.nil.name = some ⟨"Nil", "Void", 10⟩ := by cbv
      cases hnil.symm.trans (hn ▸ hu)
      cbv
    all_goals trivial
  calls {m m' name arguments f g t} hm hn := by
    cases List.mem_singleton.mp hm
    have hwalk : walkStmts sizingMain.body = [.stmt (.returning sizeCall), .expr sizeCall,
      .expr sizeReceiver] := rfl
    simp [hwalk, sizeCall, sizeReceiver] at hn

/-- The store in which the tree has been declared. -/
def sizingStore : Store :=
  Eval.after ((greeting.host.evaluator greeting.store).1.declareSource 4 sizingTree)
    (greeting.host.evaluator greeting.store).2

/-- The moment at which the entry point is about to call `size`. -/
def sizingMoment : Moment where
  activation := ⟨(greeting.host.evaluator greeting.store).1, some sizingMain, [[]],
    [sizingMain.parameterVariables]⟩
  task := .expr sizeCall
  fuel := 1
  store := sizingStore.report .entering

theorem reaches_sizing :
    sizingTree.Reaches greeting.host 4 greeting.store sizingMoment := by
  have hd : ((greeting.host.evaluator greeting.store).1.declareSource 4 sizingTree).answer?
      (greeting.host.evaluator greeting.store).2 = some () := by decide +kernel
  exact Source.reaches_returned (Eval.eq_of_answer? hd) rfl rfl rfl rfl

/-- The greeting is a String, and Strings have the member function that is called. -/
theorem members_found_greeting :
    greeting.host.registry = some registry ∧
    (greeting.host.premises registry greeting.store).Sound ∧
    (sizing.analyze greeting.host greeting.store).verdict = .ok () ∧
    (sizing.analyze greeting.host greeting.store).tree.Unambiguous
      (greeting.host.premises registry greeting.store) ∧
    (greeting.host.premises registry greeting.store).Kept greeting.store ∧
    (sizing.analyze greeting.host greeting.store).tree.Reaches greeting.host 4 greeting.store
      sizingMoment ∧
    sizingMoment.activation.pass = (greeting.host.evaluator greeting.store).1 ∧
    sizingMoment.FindsMember := by
  have h : (sizing.analyze greeting.host greeting.store).verdict = .ok () := by decide +kernel
  have hu := tree_sizing ▸ unambiguous_sizing
  have hm := tree_sizing ▸ reaches_sizing
  exact ⟨rfl, sound_greeting, h, hu, sound_greeting.kept, hm, rfl,
    Source.members_found rfl sound_greeting h hu sound_greeting.kept (Nat.le_refl _) hm rfl⟩

/-! ### Members that are not found -/

/-- The scope has no variables, the check accepts the source, and the evaluation stops because a
value does not have the member. -/
structure Misses (o : Offer) (s : Source) (member : Name) : Prop where
  vars : o.store.vars (o.stocked.newScope none).1.top = []
  accepted : (s.analyze o.host o.store).verdict = .ok ()
  stops : ((s.analyze o.host o.store).tree.evaluate o.host 20).stop? o.store
    = some (.fault (.binding (.undefinedMember member)))

/-- An Integer as a member of some type. -/
def integerMember (name : Name) : Store.Declaration :=
  .slot name (some Builtin.integer.type) (.integer 0) none

/-- A function that promises a value of that type and answers this one. -/
def constant (name : Name) (parameters : List Builtin) (result : Builtin) (v : Value) :
    Store.Declaration :=
  .routine name (parameters.map fun b => some b.type) (some result.type)
    (some (.host (.constant v) false)) none

/-- Fields, and an entry point that answers a member of one of them. -/
def answering (fields : List Field) (receiver member : Name) : Source where
  fields := fields.map .field
  methods := [.method ⟨"main", [], [], some "Integer",
    [.returning (.member (.access receiver none none) member none none)], none⟩]

/-- A member of `Any` alone. -/
def general : Offer :=
  ⟨[(.any, integerMember "m")], []⟩

/-- An Integer in a field of type `Any`, and that member of it. -/
def generalAnswering : Source :=
  answering [⟨"x", some "Any", some (.literal (.integer 1) none), none⟩] "x" "m"

/-- The field, as the check annotates it. -/
def generalReceiver : Expr :=
  .access "x" (some ⟨"x", "x", some ⟨"Any", "Object", 9⟩, .table 19⟩) (some ⟨"Any", "Object", 9⟩)

/-- Its member. -/
def generalAccess : Expr :=
  .member generalReceiver "m" (some ⟨"m", "m", some Builtin.integer.type, .table 9⟩)
    (some Builtin.integer.type)

/-- The entry point. -/
def generalMain : Method :=
  ⟨"main", [], [], some "Integer", [.returning generalAccess],
    some ⟨"main", "main", [], some ⟨"Integer", "int", 14⟩, 19⟩⟩

/-- The tree that the check leaves behind. -/
def generalTree : Source :=
  (generalAnswering.analyze general.host general.store).tree

/-- The store in which the tree has been declared. -/
def generalStore : Store :=
  Eval.after ((general.host.evaluator general.store).1.declareSource 4 generalTree)
    (general.host.evaluator general.store).2

/-- The moment at which the entry point is about to look the member up. -/
def generalMoment : Moment where
  activation := ⟨(general.host.evaluator general.store).1, some generalMain, [[]],
    [generalMain.parameterVariables]⟩
  task := .expr generalAccess
  fuel := 1
  store := generalStore.report .entering

theorem reaches_general : generalTree.Reaches general.host 4 general.store generalMoment := by
  have hd : ((general.host.evaluator general.store).1.declareSource 4 generalTree).answer?
      (general.host.evaluator general.store).2 = some () := by decide +kernel
  have hm : generalTree.methods[0]?.bind MethodPlace.method? = some generalMain := by cbv
  exact Source.reaches_returned (Eval.eq_of_answer? hd) hm rfl rfl rfl

theorem not_findsMember_general : ¬generalMoment.FindsMember := by
  intro h
  have he := Eval.eq_of_answer? (σ := generalMoment.store) (a := Value.integer 1)
    (x := eval generalMoment.activation.pass generalMoment.activation.locals 1 generalReceiver)
    (by decide +kernel)
  generalize hρ : Eval.after _ _ = ρ at he
  obtain ⟨id, s, hid, hs⟩ := h 1 (.integer 1) ρ he (by decide)
  have hmembers : ρ.membersOfValue generalMoment.activation.pass.registry (.integer 1)
      = .ok 14 := by
    rw [← hρ]
    decide +kernel
  cases hmembers.symm.trans hid
  have hmissing : (ρ.memberVariable 14 "m").toBool = false := by
    rw [← hρ]
    decide +kernel
  rw [hs] at hmissing
  cases hmissing

/-- A function that `Nil` has with another result than `Boolean`. -/
def silent : Offer where
  members := [(.nil, constant "get" [.any] .integer (.integer 1)),
    (.boolean, constant "get" [.any] .string (.string "a")), (.string, integerMember "size")]
  bindings := []

/-- It is called for a field that has not been given a value. -/
def silentAnswering : Source :=
  answering [⟨"b", some "Boolean", none, none⟩,
    ⟨"s", some "String", some (.memberCall (.access "b" none none) "get" [] none none), none⟩]
    "s" "size"

/-- A function of the scope that does not keep to its signature. -/
def mistaken : Offer where
  members := [(.string, integerMember "size")]
  bindings := [constant "f" [] .string (.integer 1)]

/-- It is called for a String. -/
def mistakenAnswering : Source :=
  answering [⟨"s", some "String", some (.call "f" [] none none), none⟩] "s" "size"

/-- A member that is to be a String, and is none. -/
def mislaid : Offer where
  members := [(.integer, .slot "v" (some Builtin.string.type) (.integer 1) none),
    (.string, integerMember "size")]
  bindings := []

/-- It is looked up for a String. -/
def mislaidAnswering : Source :=
  answering [⟨"i", some "Integer", some (.literal (.integer 1) none), none⟩,
    ⟨"s", some "String", some (.member (.access "i" none none) "v" none none), none⟩] "s" "size"

/-- A function of the scope that answers a String. -/
def hidden : Offer where
  members := [(.string, integerMember "size")]
  bindings := [constant "f" [] .string (.string "a")]

/-- It is called where a method that comes later answers an Integer in its place. -/
def hiddenAnswering : Source where
  fields := []
  methods := [.method ⟨"main", [], [], some "Integer",
      [.declaration "s" (some "String") (some (.call "f" [] none none)) none,
        .returning (.member (.access "s" none none) "size" none none)], none⟩,
    .method ⟨"f", [], [], some "Integer", [.returning (.literal (.integer 2) none)], none⟩]

/-- Nothing of what is asked of the host and the tree can be left out: members that are bound alike
in all types that are taken, also in `Nil`, functions that keep to their signatures, members that
hold values of their types, and methods that hide nothing of another signature. -/
theorem members_missed :
    (general.Misses generalAnswering "m" ∧
      ∃ m, generalTree.Reaches general.host 4 general.store m ∧
        m.activation.pass = (general.host.evaluator general.store).1 ∧ ¬m.FindsMember) ∧
    silent.Misses silentAnswering "size" ∧ mistaken.Misses mistakenAnswering "size" ∧
    mislaid.Misses mislaidAnswering "size" ∧ hidden.Misses hiddenAnswering "size" := by
  refine ⟨⟨?_, generalMoment, reaches_general, rfl, not_findsMember_general⟩, ?_, ?_, ?_, ?_⟩
  · exact ⟨by cbv, by decide +kernel, by decide +kernel⟩
  · exact ⟨by cbv, by decide +kernel, by decide +kernel⟩
  · exact ⟨by cbv, by decide +kernel, by decide +kernel⟩
  · exact ⟨by cbv, by decide +kernel, by decide +kernel⟩
  · exact ⟨by cbv, by decide +kernel, by decide +kernel⟩

end Offer

end Parlance
