/-
Code that calls what halts.

Where the functions that it calls halt, code without loops over a condition halts: an expression and
a statement are left after finitely many steps into their parts, and a loop over integers goes
through as many as there are.  So this goes by induction on the code, and inside a loop over
integers on these.

There are no objects in such a run, so no call has a receiver that knows any function.  The store
stays calm: it has no object to give, and no functions but those of the pass.
-/
import Parlance.Proofs.Paired.Frames
import Parlance.Proofs.Running.Halts
import Parlance.Proofs.Store.Functions
import Parlance.Proofs.Terminating.Descent

namespace Parlance

open Eval
open Store (SameFunctions)

/-! ### Stores without objects -/

/-- No variable of the table holds an object. -/
def Table.Hostless (t : Table) : Prop :=
  ∀ s ∈ t.slots, s.value.Hostless

/-- The table only binds variables, none of which holds an object. -/
structure Table.Calm (t : Table) : Prop where
  routines : t.routines = []
  slots : t.Hostless

/-- In the store, the scopes around the pass and the members of all types are calm, and no variable
of the pass itself holds an object. The store has the functions of the first one, and its
stream. -/
structure Pass.Calm (pass : Pass) (ρ σ : Store) : Prop where
  functions : ρ.SameFunctions σ
  encoding : σ.encoding = ρ.encoding
  outer : ∀ id ∈ pass.scope.outer, id ≠ pass.scope.top ∧ (σ.table id).Calm
  members : ∀ t ∈ σ.registry pass.registry,
    t.members ≠ pass.scope.top ∧ (σ.table t.members).Calm
  own : (σ.table pass.scope.top).Hostless

variable {pass : Pass} {ρ σ : Store} {v : Value}

namespace Table

variable {t : Table}

theorem Hostless.addSlot (h : t.Hostless) {s : Slot} (hs : s.value.Hostless) :
    (t.addSlot s).Hostless := by
  intro s' hs'
  rcases List.mem_append.mp hs' with hs' | hs'
  · exact h s' hs'
  · exact List.mem_singleton.mp hs' ▸ hs

theorem Hostless.setValue (h : t.Hostless) (n : Name) (hv : v.Hostless) :
    (t.setValue n v).Hostless := by
  intro s' hs'
  obtain ⟨s, hs, rfl⟩ := List.mem_map.mp hs'
  split
  · exact hv
  · exact h s hs

end Table

namespace Pass.Calm

theorem rebase (h : pass.Calm ρ σ) : pass.Calm σ σ :=
  { h with functions := .refl σ, encoding := rfl }

/-- A change of a table that leaves its functions and brings no object into it. -/
theorem modifyTable (h : pass.Calm ρ σ) (id : TableId) {f : Table → Table}
    (hroutines : ∀ t, (f t).routines = t.routines)
    (hslots : ∀ t : Table, t.Hostless → (f t).Hostless) : pass.Calm ρ (σ.modifyTable id f) := by
  have hostless {other : TableId} (ho : (σ.table other).Hostless) :
      ((σ.modifyTable id f).table other).Hostless := by
    rcases σ.table_modifyTable id other f with he | ⟨rfl, -, he⟩
    · rwa [he]
    · rw [he]
      exact hslots _ ho
  have hsame := SameFunctions.modifyTable σ id hroutines
  have calm {other : TableId} (ho : (σ.table other).Calm) :
      ((σ.modifyTable id f).table other).Calm :=
    ⟨(hsame.routines other).trans ho.routines, hostless ho.slots⟩
  exact ⟨h.functions.trans hsame, h.encoding, fun id hid => (h.outer id hid).imp_right calm,
    fun t ht => (h.members t ht).imp_right calm, hostless h.own⟩

theorem setValue (h : pass.Calm ρ σ) (x : Variable) (hv : v.Hostless) :
    pass.Calm ρ (σ.setValue x v) := by
  unfold Store.setValue
  split
  · exact h.modifyTable _ (fun _ => rfl) fun t ht => ht.setValue _ hv
  · exact h

theorem declareVariable (h : pass.Calm ρ σ) {id : TableId} {n : Name} {t : Option Ty}
    {target : Option Text} {a : Variable × Store} (hv : v.Hostless)
    (ha : σ.declareVariable id n t v target = .ok a) : pass.Calm ρ a.2 := by
  unfold Store.declareVariable at ha
  split at ha
  · cases ha
  · cases ha
    exact h.modifyTable _ (fun _ => rfl) fun t ht => ht.addSlot hv

theorem write (h : pass.Calm ρ σ) (t : Text) : pass.Calm ρ (σ.write t) :=
  ⟨⟨h.functions.size, h.functions.routines⟩, h.encoding, h.outer, h.members, h.own⟩

theorem report (h : pass.Calm ρ σ) (record : LogRecord) : pass.Calm ρ (σ.report record) :=
  ⟨⟨h.functions.size, h.functions.routines⟩, h.encoding, h.outer, h.members, h.own⟩

/-- A function is added to those of the pass. -/
theorem addRoutine (h : pass.Calm ρ σ) (r : Routine) :
    pass.Calm (σ.modifyTable pass.scope.top fun t => t.addRoutine r)
      (σ.modifyTable pass.scope.top fun t => t.addRoutine r) := by
  have other {id : TableId} (hid : id ≠ pass.scope.top ∧ (σ.table id).Calm) :
      id ≠ pass.scope.top ∧
        ((σ.modifyTable pass.scope.top fun t => t.addRoutine r).table id).Calm :=
    ⟨hid.1, by rw [σ.table_modifyTable_of_ne hid.1]; exact hid.2⟩
  refine ⟨.refl _, rfl, fun id hid => other (h.outer id hid), fun t ht => other (h.members t ht),
    ?_⟩
  rcases σ.table_modifyTable pass.scope.top pass.scope.top fun t => t.addRoutine r with he | he
  · rw [he]
    exact h.own
  · rw [he.2.2]
    exact h.own

theorem declareFunction (h : pass.Calm σ σ) {n : Name} {types : List (Option Ty)} {t : Option Ty}
    {implementation? : Option Implementation} {target : Option Text} {a : Function × Store}
    (ha : σ.declareFunction pass.scope.top n types t implementation? target = .ok a) :
    pass.Calm a.2 a.2 := by
  unfold Store.declareFunction at ha
  split at ha
  · cases ha
  · cases ha
    exact h.addRoutine _

/-! What is found in a calm store. -/

theorem hostless_of_table (h : pass.Calm ρ σ) {id : TableId} (hid : id ∈ pass.scope.tables) :
    (σ.table id).Hostless := by
  rcases List.mem_cons.mp hid with rfl | hid
  · exact h.own
  · exact (h.outer id hid).2.slots

theorem scopeVariable (h : pass.Calm ρ σ) {n : Name} {s : Slot}
    (hs : σ.scopeVariable pass.scope n = .ok s) : s.value.Hostless := by
  obtain ⟨id, hid, hs⟩ := List.exists_of_findSome?_eq_some (σ.scopeVariable_ok.mp hs)
  exact h.hostless_of_table hid s (Table.mem_of_slot? hs).1

/-- The members of a value are those of a type. -/
theorem membersOfValue (h : pass.Calm ρ σ) (hv : v.Hostless) {id : TableId}
    (hid : σ.membersOfValue pass.registry v = .ok id) : (σ.table id).Calm := by
  have named : σ.membersOfValue pass.registry v = (σ.type pass.registry v.kind).map Ty.members := by
    cases v with
    | object o => exact absurd rfl (hv o)
    | _ => rfl
  rw [named] at hid
  obtain ⟨t, ht, rfl⟩ := Except.map_ok.mp hid
  unfold Store.type at ht
  split at ht
  · next ht' =>
    cases ht
    exact (h.members t (List.mem_of_find?_eq_some ht')).2
  · cases ht

theorem scopeFunction (h : pass.Calm ρ σ) (n : Name) (count : Nat) :
    σ.findFunction n count pass.scope.tables = ρ.findFunction n count pass.scope.tables :=
  Store.findFunction_congr (fun id _ => h.functions.routines id) n count

/-- A function that is found is one of the pass. -/
theorem mem_of_scopeFunction (h : pass.Calm ρ σ) {n : Name} {count : Nat} {r : Routine}
    (hr : σ.scopeFunction pass.scope n count = .ok r) :
    r ∈ (ρ.table pass.scope.top).routines ∧ r.function.arity = count := by
  obtain ⟨id, hid, hmem, -, harity⟩ := Store.mem_of_findFunction (σ.scopeFunction_ok.mp hr)
  rcases List.mem_cons.mp hid with rfl | hid
  · exact ⟨h.functions.routines _ ▸ hmem, harity⟩
  · rw [(h.outer id hid).2.routines] at hmem
    cases hmem

end Pass.Calm

theorem Table.Calm.memberVariable {id : TableId} (h : (σ.table id).Calm) {n : Name} {s : Slot}
    (hs : σ.memberVariable id n = .ok s) : s.value.Hostless :=
  h.slots s (Table.mem_of_slot? (σ.memberVariable_ok.mp hs)).1

/-- There are no functions among calm members. -/
theorem Table.Calm.memberFunction {id : TableId} (h : (σ.table id).Calm) {n : Name} {count : Nat}
    {r : Routine} : σ.memberFunction id n count ≠ .ok r := by
  intro hr
  have hmem := (Table.mem_of_routine? (σ.memberFunction_ok.mp hr)).1
  rw [h.routines] at hmem
  cases hmem

/-! ### Frames without objects -/

/-- No variable of the frames holds an object. -/
def Locals.Hostless (ls : Locals) : Prop :=
  ∀ f ∈ ls, ∀ b ∈ f, b.2.Hostless

namespace Locals.Hostless

variable {ls : Locals}

theorem get? (h : ls.Hostless) {n : Name} (hv : ls.get? n = some v) : v.Hostless := by
  obtain ⟨f, hf, hm⟩ := Aligned.exists_of_get? hv
  exact h f hf _ hm

theorem set (h : ls.Hostless) (n : Name) (hv : v.Hostless) : (ls.set n v).Hostless :=
  Aligned.sorted_set h hv

theorem tail (h : ls.Hostless) : Locals.Hostless ls.tail :=
  fun f hf => h f (List.mem_of_mem_tail hf)

theorem enter (h : ls.Hostless) {f : Frame} (hf : ∀ b ∈ f, b.2.Hostless) :
    Locals.Hostless (f :: ls) :=
  List.forall_mem_cons.mpr ⟨hf, h⟩

end Locals.Hostless

theorem Frame.declare_hostless {f g : Frame} {n : Name} (hf : ∀ b ∈ f, b.2.Hostless)
    (hv : v.Hostless) (hg : Frame.declare f n v = .ok g) : ∀ b ∈ g, b.2.Hostless := by
  unfold Frame.declare at hg
  split at hg
  · cases hg
  · cases hg
    exact List.forall_mem_append.mpr ⟨hf, List.forall_mem_singleton.mpr hv⟩

theorem Frame.declareAll_hostless {f g : Frame} {bs : List (Name × Value)}
    (hf : ∀ b ∈ f, b.2.Hostless) (hbs : ∀ b ∈ bs, b.2.Hostless)
    (hg : Frame.declareAll f bs = .ok g) : ∀ b ∈ g, b.2.Hostless := by
  induction bs generalizing f with
  | nil =>
    cases hg
    exact hf
  | cons b bs ih =>
    obtain ⟨hb, hbs⟩ := List.forall_mem_cons.mp hbs
    rw [Frame.declareAll] at hg
    split at hg
    · cases hg
    · next f' hf' => exact ih (Frame.declare_hostless hf hb hf') hbs hg

/-- No variable of the frames that are left, or not the value that is returned. -/
def Outcome.Hostless : Outcome → Prop
  | .completed ls => ls.Hostless
  | .returned v => v.Hostless

/-! ### Code -/

/-- What an evaluation in a calm store comes to. -/
def Pass.Leaves {α : Type} (pass : Pass) (ρ : Store) (P : α → Prop) (a : α) (σ : Store) : Prop :=
  P a ∧ pass.Calm ρ σ

/-- Called from the pass with arguments that are no objects, the function halts. -/
def Routine.Halts (r : Routine) (pass : Pass) (ρ : Store) : Prop :=
  ∀ vs σ, (∀ v ∈ vs, v.Hostless) → pass.Calm ρ σ →
    Eval.Halts (pass.Leaves ρ Value.Hostless) (fun fuel => invoke fuel r vs) σ

/-- All functions that are found by these keys halt. -/
def Pass.Knows (pass : Pass) (ρ : Store) (known : List (Name × Nat)) : Prop :=
  ∀ n count r, (n, count) ∈ known → ρ.findFunction n count pass.scope.tables = some r →
    r.Halts pass ρ

section Code

variable {known : List (Name × Nat)}

theorem halts_call (hk : pass.Knows ρ known) {n : Name} {es : List Expr}
    (hn : (n, es.length) ∈ known) {vs : List Value} (hlength : vs.length = es.length)
    (hvs : ∀ v ∈ vs, v.Hostless) (hσ : pass.Calm ρ σ) :
    Eval.Halts (pass.Leaves ρ Value.Hostless) (fun fuel => do
      let r ← Eval.read fun σ => σ.scopeFunction pass.scope n vs.length
      invoke fuel r vs) σ := by
  refine Halts.bind (P := fun r τ => τ = σ ∧ r.Halts pass ρ) (halts_read fun r hr => ?_) ?_
  · refine ⟨rfl, hk n es.length r hn ?_⟩
    rw [← hσ.scopeFunction, ← hlength]
    exact σ.scopeFunction_ok.mp hr
  · rintro r τ ⟨rfl, hr⟩
    exact hr vs τ hvs hσ

mutual

/-- **An expression halts** where the functions that it calls do. -/
theorem Expr.halts (hk : pass.Knows ρ known) : (e : Expr) → {ls : Locals} → {σ : Store} →
    (∀ n ∈ e.walk, n.Descends known) → ls.Hostless → pass.Calm ρ σ →
    Eval.Halts (pass.Leaves ρ Value.Hostless) (fun fuel => eval pass ls fuel e) σ
  | .literal v t, ls, σ, he, hls, hσ => by
    refine Halts.step ?_
    simp only [eval]
    exact halts_pure ⟨he _ List.mem_cons_self, hσ⟩
  | .group e t, ls, σ, he, hls, hσ => by
    refine Halts.step ?_
    simp only [eval]
    exact e.halts hk (fun n hn => he n (List.mem_cons_of_mem _ hn)) hls hσ
  | .binary op l r t, ls, σ, he, hls, hσ => by
    obtain ⟨-, he⟩ := List.forall_mem_cons.mp he
    obtain ⟨hl, hr⟩ := List.forall_mem_append.mp he
    refine Halts.step ?_
    simp only [eval]
    refine (l.halts hk hl hls hσ).bind fun left τ hleft => ?_
    refine Halts.bind (P := fun _ υ => υ = τ) (halts_lift fun _ _ => rfl) ?_
    rintro settled _ rfl
    cases settled with
    | some b => exact halts_pure ⟨nofun, hleft.2⟩
    | none =>
      refine (r.halts hk hr hls hleft.2).bind fun right υ hright => ?_
      exact halts_lift fun v hv => ⟨binaryApply_hostless hv, hright.2⟩
  | .access n v t, ls, σ, he, hls, hσ => by
    refine Halts.step ?_
    simp only [eval]
    cases hv : ls.get? n with
    | some v => exact halts_pure ⟨hls.get? hv, hσ⟩
    | none =>
      refine Halts.bind (P := fun s => pass.Leaves ρ (fun _ => s.value.Hostless) s)
        (halts_read fun s hs => ⟨hσ.scopeVariable hs, hσ⟩) fun s τ hs => ?_
      exact halts_pure hs
  | .member r n v t, ls, σ, he, hls, hσ => by
    refine Halts.step ?_
    simp only [eval]
    refine (r.halts hk (fun n hn => he n (List.mem_cons_of_mem _ hn)) hls hσ).bind ?_
    intro owner τ ho
    refine Halts.bind (P := fun id υ => υ = τ ∧ (υ.table id).Calm)
      (halts_read fun id hid => ⟨rfl, ho.2.membersOfValue ho.1 hid⟩) ?_
    rintro id _ ⟨rfl, hid⟩
    refine Halts.bind (P := fun s => pass.Leaves ρ (fun _ => s.value.Hostless) s)
      (halts_read fun s hs => ⟨hid.memberVariable hs, ho.2⟩) fun s τ hs => ?_
    exact halts_pure hs
  | .call n es f t, ls, σ, he, hls, hσ => by
    obtain ⟨hn, he⟩ := List.forall_mem_cons.mp he
    refine Halts.step ?_
    simp only [eval]
    refine (halts_evalAll hk es he hls hσ).bind fun vs τ hvs => ?_
    exact halts_call hk hn hvs.1.1 hvs.1.2 hvs.2
  | .memberCall r n es f t, ls, σ, he, hls, hσ => by
    obtain ⟨-, he⟩ := List.forall_mem_cons.mp he
    obtain ⟨hr, hes⟩ := List.forall_mem_append.mp he
    refine Halts.step ?_
    simp only [eval]
    refine (r.halts hk hr hls hσ).bind fun owner τ ho => ?_
    refine (halts_evalAll hk es hes hls ho.2).bind fun vs υ hvs => ?_
    refine Halts.bind (P := fun id ω => (ω.table id).Calm)
      (halts_read fun id hid => hvs.2.membersOfValue ho.1 hid) fun id ω hid => ?_
    refine Halts.bind (P := fun _ _ => False) (halts_read fun f hf => ?_) fun _ _ h => h.elim
    exact hid.memberFunction hf
  | .hole h, ls, σ, _, _, _ => by
    refine Halts.step ?_
    simp only [eval]
    exact halts_throw

theorem halts_evalAll (hk : pass.Knows ρ known) : (es : List Expr) → {ls : Locals} → {σ : Store} →
    (∀ n ∈ walkExprs es, n.Descends known) → ls.Hostless → pass.Calm ρ σ →
    Eval.Halts (pass.Leaves ρ fun vs => vs.length = es.length ∧ ∀ v ∈ vs, v.Hostless)
      (fun fuel => evalAll pass ls fuel es) σ
  | [], ls, σ, _, _, hσ => by
    refine Halts.step ?_
    simp only [evalAll]
    exact halts_pure ⟨⟨rfl, List.forall_mem_nil _⟩, hσ⟩
  | e :: es, ls, σ, he, hls, hσ => by
    obtain ⟨he, hes⟩ := List.forall_mem_append.mp he
    refine Halts.step ?_
    simp only [evalAll]
    refine (e.halts hk he hls hσ).bind fun v τ hv => ?_
    refine (halts_evalAll hk es hes hls hv.2).bind fun vs υ hvs => ?_
    refine halts_pure ⟨⟨?_, List.forall_mem_cons.mpr ⟨hv.1, hvs.1.2⟩⟩, hvs.2⟩
    rw [List.length_cons, List.length_cons, hvs.1.1]

end

/-! ### Statements -/

theorem halts_declare {ls : Locals} (n : Name) (hls : ls.Hostless) (hv : v.Hostless)
    (hσ : pass.Calm ρ σ) :
    Eval.Halts (pass.Leaves ρ Locals.Hostless) (fun _ => Eval.declare pass ls n v) σ := by
  cases ls with
  | nil =>
    refine Halts.bind (P := fun a _ => pass.Calm ρ a.2)
      (halts_read fun a ha => hσ.declareVariable hv ha) fun a τ ha => ?_
    refine Halts.bind (P := fun _ υ => pass.Calm ρ υ) (halts_modify ha) fun _ υ hυ => ?_
    exact halts_pure ⟨hls, hυ⟩
  | cons f outer =>
    obtain ⟨hf, houter⟩ := List.forall_mem_cons.mp hls
    refine Halts.bind (P := fun g => pass.Leaves ρ (fun _ => ∀ b ∈ g, b.2.Hostless) g)
      (halts_lift fun g hg => ⟨?_, hσ⟩) fun g τ hg => ?_
    · exact Frame.declare_hostless hf hv (Except.mapError_ok.mp hg)
    · exact halts_pure ⟨List.forall_mem_cons.mpr ⟨hg.1, houter⟩, hg.2⟩

theorem halts_assign {ls : Locals} {fuelled : Nat → Eval Value} (x : Variable) (hls : ls.Hostless)
    (h : Eval.Halts (pass.Leaves ρ Value.Hostless) fuelled σ) :
    Eval.Halts (pass.Leaves ρ Outcome.Hostless) (fun fuel => do
      let v ← fuelled fuel
      modify (·.setValue x v)
      return .completed ls) σ := by
  refine h.bind fun v τ hv => ?_
  refine Halts.bind (P := fun _ υ => pass.Calm ρ υ) (halts_modify (hv.2.setValue x hv.1))
    fun _ υ hυ => ?_
  exact halts_pure ⟨hls, hυ⟩

/-- A loop over integers halts if its body does. -/
theorem halts_iterate {n : Name} {ss : List Stmt}
    (hblock : ∀ {ls : Locals} {f : Frame} {σ : Store}, ls.Hostless → (∀ b ∈ f, b.2.Hostless) →
      pass.Calm ρ σ →
      Eval.Halts (pass.Leaves ρ Outcome.Hostless) (fun fuel => block pass fuel ls f ss) σ)
    (is : List Int) {ls : Locals} (hls : ls.Hostless) (hσ : pass.Calm ρ σ) :
    Eval.Halts (pass.Leaves ρ Outcome.Hostless) (fun fuel => iterate pass fuel ls n is ss) σ := by
  induction is generalizing ls σ with
  | nil =>
    refine Halts.step ?_
    simp only [iterate]
    exact halts_pure ⟨hls, hσ⟩
  | cons i is ih =>
    refine Halts.step ?_
    simp only [iterate]
    have hi : (Value.integer i).Hostless := nofun
    refine (hblock hls (List.forall_mem_singleton.mpr hi) hσ).bind fun o τ ho => ?_
    cases o with
    | completed ls' => exact ih ho.1 ho.2
    | returned v => exact halts_pure ho

mutual

/-- **A statement halts** where the functions that it calls do. -/
theorem Stmt.halts (hk : pass.Knows ρ known) : (s : Stmt) → {ls : Locals} → {σ : Store} →
    (∀ n ∈ s.walk, n.Descends known) → ls.Hostless → pass.Calm ρ σ →
    Eval.Halts (pass.Leaves ρ Outcome.Hostless) (fun fuel => exec pass fuel ls s) σ
  | .expression e, ls, σ, hs, hls, hσ => by
    refine Halts.step ?_
    simp only [exec]
    refine (e.halts hk (fun n hn => hs n (List.mem_cons_of_mem _ hn)) hls hσ).bind fun v τ hv => ?_
    exact halts_pure ⟨hls, hv.2⟩
  | .declaration n t none x, ls, σ, hs, hls, hσ => by
    refine Halts.step ?_
    simp only [exec]
    refine Halts.bind (P := pass.Leaves ρ Value.Hostless) (halts_pure ⟨nofun, hσ⟩) fun v τ hv => ?_
    refine (halts_declare n hls hv.1 hv.2).bind fun ls' υ hls' => ?_
    exact halts_pure hls'
  | .declaration n t (some e) x, ls, σ, hs, hls, hσ => by
    refine Halts.step ?_
    simp only [exec]
    refine (e.halts hk (fun n hn => hs n (List.mem_cons_of_mem _ hn)) hls hσ).bind fun v τ hv => ?_
    refine (halts_declare n hls hv.1 hv.2).bind fun ls' υ hls' => ?_
    exact halts_pure hls'
  | .assignment target value, ls, σ, hs, hls, hσ => by
    obtain ⟨-, hs⟩ := List.forall_mem_cons.mp hs
    obtain ⟨htarget, hvalue⟩ := List.forall_mem_append.mp hs
    refine Halts.step ?_
    cases target with
    | access n x t =>
      simp only [exec]
      cases hget : ls.get? n with
      | some w =>
        refine (value.halts hk hvalue hls hσ).bind fun v τ hv => ?_
        exact halts_pure ⟨hls.set n hv.1, hv.2⟩
      | none =>
        refine Halts.bind (P := fun _ τ => pass.Calm ρ τ) (halts_read fun _ _ => hσ)
          fun s τ hτ => ?_
        exact halts_assign s.var hls (value.halts hk hvalue hls hτ)
    | member r n x t =>
      simp only [exec]
      refine (r.halts hk (fun n hn => htarget n (List.mem_cons_of_mem _ hn)) hls hσ).bind
        fun owner τ ho => ?_
      refine Halts.bind (P := fun _ υ => pass.Calm ρ υ) (halts_read fun _ _ => ho.2)
        fun id υ hυ => ?_
      refine Halts.bind (P := fun _ ω => pass.Calm ρ ω) (halts_read fun _ _ => hυ)
        fun s ω hω => ?_
      exact halts_assign s.var hls (value.halts hk hvalue hls hω)
    | _ =>
      simp only [exec]
      exact halts_throw
  | .conditional c a b, ls, σ, hs, hls, hσ => by
    obtain ⟨-, hs⟩ := List.forall_mem_cons.mp hs
    obtain ⟨hc, hs⟩ := List.forall_mem_append.mp hs
    obtain ⟨ha, hb⟩ := List.forall_mem_append.mp hs
    refine Halts.step ?_
    simp only [exec]
    refine (c.halts hk hc hls hσ).bind fun v τ hv => ?_
    refine Halts.bind (P := fun _ υ => pass.Calm ρ υ) (halts_lift fun _ _ => hv.2) fun t υ hυ => ?_
    cases t with
    | true => exact halts_block hk a ha hls (List.forall_mem_nil _) hυ
    | false => exact halts_block hk b hb hls (List.forall_mem_nil _) hυ
  | .forEach n e b, ls, σ, hs, hls, hσ => by
    obtain ⟨-, hs⟩ := List.forall_mem_cons.mp hs
    obtain ⟨he, hb⟩ := List.forall_mem_append.mp hs
    refine Halts.step ?_
    simp only [exec]
    refine (e.halts hk he hls hσ).bind fun v τ hv => ?_
    cases v with
    | iterable is => exact halts_iterate (halts_block hk b hb) is hls hv.2
    | _ => exact halts_throw
  | .whileLoop c b, ls, σ, hs, _, _ => (hs _ List.mem_cons_self).elim
  | .returning e, ls, σ, hs, hls, hσ => by
    refine Halts.step ?_
    simp only [exec]
    refine (e.halts hk (fun n hn => hs n (List.mem_cons_of_mem _ hn)) hls hσ).bind fun v τ hv => ?_
    exact halts_pure hv
  | .hole h, ls, σ, _, _, _ => by
    refine Halts.step ?_
    simp only [exec]
    exact halts_throw

theorem halts_execAll (hk : pass.Knows ρ known) : (ss : List Stmt) → {ls : Locals} → {σ : Store} →
    (∀ n ∈ walkStmts ss, n.Descends known) → ls.Hostless → pass.Calm ρ σ →
    Eval.Halts (pass.Leaves ρ Outcome.Hostless) (fun fuel => execAll pass fuel ls ss) σ
  | [], ls, σ, _, hls, hσ => by
    refine Halts.step ?_
    simp only [execAll]
    exact halts_pure ⟨hls, hσ⟩
  | s :: ss, ls, σ, hs, hls, hσ => by
    obtain ⟨hs, hss⟩ := List.forall_mem_append.mp hs
    refine Halts.step ?_
    simp only [execAll]
    refine (s.halts hk hs hls hσ).bind fun o τ ho => ?_
    cases o with
    | completed ls' => exact halts_execAll hk ss hss ho.1 ho.2
    | returned v => exact halts_pure ho

theorem halts_block (hk : pass.Knows ρ known) (ss : List Stmt)
    (hs : ∀ n ∈ walkStmts ss, n.Descends known) {ls : Locals} {f : Frame} {σ : Store}
    (hls : ls.Hostless) (hf : ∀ b ∈ f, b.2.Hostless) (hσ : pass.Calm ρ σ) :
    Eval.Halts (pass.Leaves ρ Outcome.Hostless) (fun fuel => block pass fuel ls f ss) σ := by
  refine Halts.step ?_
  simp only [block]
  refine (halts_execAll hk ss hs (List.forall_mem_cons.mpr ⟨hf, hls⟩) hσ).bind fun o τ ho => ?_
  cases o with
  | completed ls' => exact halts_pure ⟨ho.1.tail, ho.2⟩
  | returned v => exact halts_pure ho

end

/-! ### Functions -/

/-- **A method halts** where the functions that it calls do. -/
theorem halts_method (hk : pass.Knows ρ known) {r : Routine} {m : Method}
    (hr : r.implementation? = some (.method m pass))
    (hm : ∀ n ∈ walkStmts m.body, n.Descends known) : r.Halts pass ρ := by
  intro vs σ hvs hσ
  refine Halts.step ?_
  simp only [invoke, hr]
  refine Halts.bind (P := fun f => pass.Leaves ρ (fun _ => ∀ b ∈ f, b.2.Hostless) f)
    (halts_lift fun f hf => ⟨?_, hσ⟩) fun f τ hf => ?_
  · refine Frame.declareAll_hostless (List.forall_mem_nil _) (fun b hb => ?_)
      (Except.mapError_ok.mp hf)
    exact hvs b.2 (List.of_mem_zip hb).2
  · refine (halts_execAll hk m.body hm (List.forall_mem_singleton.mpr hf.1) hf.2).bind
      fun o υ ho => ?_
    cases o with
    | completed ls => exact halts_pure ⟨nofun, ho.2⟩
    | returned v => exact halts_pure ho

theorem halts_print {r : Routine} (hr : r.implementation? = some .print) : r.Halts pass ρ := by
  intro vs σ _ hσ
  refine Halts.step ?_
  simp only [invoke, hr]
  refine Halts.bind (P := fun _ τ => pass.Calm ρ τ) (halts_lift fun _ _ => hσ) fun v τ hτ => ?_
  refine Halts.bind (P := fun _ υ => pass.Calm ρ υ) (halts_lift fun _ _ => hτ) fun t υ hυ => ?_
  refine Halts.bind (P := fun _ ω => pass.Calm ρ ω) (halts_write (hυ.write _)) fun _ ω hω => ?_
  exact halts_pure ⟨nofun, hω⟩

end Code

end Parlance
