/-
What a check leaves behind.

A check declares things in its own scope, in the order of the source and up to where it stops, and
nowhere else.  It knows of no method once it has ended, and what it has made for itself nobody else
can find.  So running a source that passes is evaluating it, except that in the end the value has to
be an integer.
-/
import Parlance.Proofs.Beside.Rooted
import Parlance.Proofs.Checking.Sessions
import Parlance.Proofs.Closed.Program
import Parlance.Proofs.Paired.Bare

namespace Parlance

open EStateM (Result)

variable {host : Host} {σ : Store} {s : Source}

/-- A source that passes the check has no literals that are objects. -/
theorem Source.objectFree_of_accepted (h : (s.analyze host σ).verdict = .ok ()) :
    (s.analyze host σ).tree.ObjectFree := by
  obtain ⟨σ₁, σ₂, _, htyped, -⟩ := Pass.check_typed h
  have hfields : Store.AddsFunctions (host.checker σ).1.scope.top (host.checker σ).2 σ₁ [] :=
    .of_same htyped.fields.fields_same
  have htop := hfields.hasTable (host.checker_spec σ).top
  refine ⟨fun o t hn => ?_, fun sketch part o t hs => ?_⟩
  · rcases List.mem_cons.mp hn with hn | hn
    · cases hn
    · have hnear : ∃ c, Node.TypedNear c (.expr (.literal (.object o) t)) := by
        rcases List.mem_append.mp hn with hn | hn
        · rcases htyped.fields.fields_walk hn with ⟨_, _, _, _, he, -⟩ | ⟨c, hnear, -⟩
          · cases he
          · exact ⟨c, hnear⟩
        · rcases htyped.methods.methods_walk htop hn with ⟨_, _, _, _, he, -⟩ | ⟨c, hnear, -⟩
          · cases he
          · exact ⟨c, hnear⟩
      obtain ⟨c, hnear⟩ := hnear
      cases hnear with
      | expr _ _ ht => exact (ht.hostless o rfl).elim
  · obtain ⟨before, after, he⟩ := List.append_of_mem hs
    obtain ⟨_, _, _, _, _, -, hplace, -⟩ := htyped.fields.split he
    obtain ⟨_, hv⟩ := hplace.adds
    obtain ⟨f, hf, -⟩ := hv.bound
    cases hf

/-- How a run ends where an evaluation ends in some way: with the same integer, with a fault in
place of any other value, or stopped by the same. -/
inductive Source.RunsAs (R : Store → Store → Prop) :
    Result Stop Store Value → Result Stop Store Int → Prop
  | integer {n : Int} {σ τ : Store} (h : R σ τ) : RunsAs R (.ok (.integer n) σ) (.ok n τ)
  | other {v : Value} {σ τ : Store} (hv : ∀ n, v ≠ .integer n) (h : R σ τ) :
      RunsAs R (.ok v σ) (.error (.fault (.run (.mainResult v.kind))) τ)
  | stop {stop : Stop} {σ τ : Store} (h : R σ τ) : RunsAs R (.error stop σ) (.error stop τ)

/-- Where the evaluation answers an integer, so does the run. -/
theorem Source.RunsAs.exists_of_integer {R : Store → Store → Prop} {n : Int} {ρ : Store}
    {r : Result Stop Store Int} (h : RunsAs R (.ok (.integer n) ρ) r) :
    ∃ υ, r = .ok n υ ∧ R ρ υ := by
  cases h with
  | integer h => exact ⟨_, rfl, h⟩
  | other hv _ => exact (hv n rfl).elim

theorem Source.run_eq (h : (s.analyze host σ).verdict = .ok ()) (fuel : Nat) :
    s.run host fuel σ = ((s.analyze host σ).tree.evaluate host fuel >>= exitValue)
      (s.analyze host σ).store := by
  change (Eval.lift (s.analyze host σ).verdict >>= fun _ =>
    (s.analyze host σ).tree.evaluate host fuel >>= exitValue) (s.analyze host σ).store = _
  rw [h]
  rfl

/-- **Running an accepted source is evaluating it**, but for the check that the value is an
integer. -/
theorem Source.run_as_evaluate (hσ : σ.Rooted) (hhost : host.Rooted σ)
    (h : (s.analyze host σ).verdict = .ok ()) (fuel : Nat) :
    RunsAs σ.SameHost (s.evaluate host fuel σ) (s.run host fuel σ) := by
  have hcontinues := s.analyze_continues host σ
  have halike : s.Alike (Beside.Gap.between σ (s.analyze host σ).store).relocation.code
      (s.analyze host σ).tree := by
    have hfits := (Source.objectFree_of_accepted h).fits
      (k := (Beside.Gap.between σ (s.analyze host σ).store).relocation.code)
      fun v hv o ho => (hv o ho).elim
    exact (Source.alike_refl (Relocation.code_reflexive _) (fun _ => rfl) hfits).of_bare
      ⟨id, id, fun _ _ => trivial, fun _ _ => trivial, fun _ _ => trivial, fun _ _ => trivial⟩
      ((host.checker σ).1.check_bare s _).symm
  have hends := Beside.evaluate hσ hhost hcontinues halike fuel
  rw [run_eq h]
  generalize hr : s.evaluate host fuel σ = r at hends
  generalize hr' : (s.analyze host σ).tree.evaluate host fuel (s.analyze host σ).store = r' at hends
  cases hends with
  | @answer v ρ υ hsame =>
    rw [Eval.bind_apply hr']
    cases v with
    | integer n => exact .integer hsame
    | _ => exact .other nofun hsame
  | stop hsame =>
    rw [Eval.bind_error hr']
    exact .stop hsame

/-! ### All that a check does -/

/-- **A check touches nothing outside its own scope, and puts back what it has set.** Every request
ends with the method with which it began, in whatever state and whether it passes or not. After any
requests a pass is outside of all methods again and has only added to the scopes that it was asked
to check in; and what it checks then stays in its scope. A statement adds its own name if it is a
declaration that passes, an expression adds nothing, and a source adds its first fields and then its
first methods, up to where its check ends. So a source that passes runs as it is evaluated, and
leaves the host the same. -/
theorem Pass.checks_confined (pass : Pass) {σ : Store} (htop : σ.HasTable pass.scope.top) :
    (∀ (r : Request) (a : Analyzer), ((pass.perform r).run a).2.method? = a.method?) ∧
    (∀ requests : List Request, (∀ id ∈ requests.flatMap (Request.tops pass), σ.HasTable id) →
      σ.Grows (requests.flatMap (Request.tops pass)) (pass.session requests (.new σ)).store ∧
        (pass.session requests (.new σ)).Confines pass) ∧
    (∀ (a : Analyzer) returns? block outer, a.Returns pass returns? → a.blocks = block :: outer →
      ∀ s : Stmt, ∃ vs : List Variable,
        ((Analyzer.checkStmt pass s).run a).2 = { a with blocks := (block ++ vs) :: outer } ∧
        (((Analyzer.checkStmt pass s).run a).1.2 = .ok () →
          vs.map Variable.name = s.declares?.toList) ∧
        ∀ f, ((Analyzer.checkStmt pass s).run a).1.2 = .error f → vs = []) ∧
    ∀ (s : Source) (host : Host), σ.Rooted → host.Rooted σ →
      (s.analyze host σ).verdict = .ok () → ∀ fuel,
      Source.RunsAs σ.SameHost (s.evaluate host fuel σ) (s.run host fuel σ) := by
  refine ⟨fun r a => Pass.restores_perform r a, fun requests htops => ?_,
    fun a _ _ _ ha hb s => Analyzer.run_checkStmt_inside ha hb s,
    fun _ _ hσ hhost h fuel => Source.run_as_evaluate hσ hhost h fuel⟩
  obtain ⟨hidle, hgrows⟩ := Pass.session_grows requests (Analyzer.idle_new σ) htops
  exact ⟨hgrows, hidle.confines (hgrows.hasTable htop)⟩

/-- A scope of a host that binds the variable `seed`. -/
def seeded : Store :=
  let (scope, σ) := Store.initial.newScope none
  σ.modifyTable scope.top fun t =>
    t.addSlot ⟨⟨"seed", "seed", some Builtin.integer.type, .table scope.top⟩, .integer 4⟩

/-- The host that gives that scope. -/
def seeding : Host :=
  ⟨some (Store.initial.newScope none).1, none⟩

/-- A new pass that checks what that host is given. -/
def seedbed : Pass × Store :=
  seeding.checker seeded

theorem rooted_seedbed : seedbed.2.Rooted ∧ seeding.Rooted seedbed.2 := by
  have hscope := (Store.rooted_opened .memory).newScope none
  have hseeded : seeded.Rooted :=
    hscope.modifyTable _ ((hscope.tables _).addSlot ⟨by rintro id ⟨⟩; decide, nofun⟩)
  have hseeding : seeding.Rooted seeded := by
    refine ⟨?_, nofun⟩
    rintro scope ⟨⟩ id hid
    cases List.mem_singleton.mp hid
    decide
  exact ⟨(hseeded.newPass hseeding (show ∀ i ∈ (none : Option Implementation), _ from nofun)).1,
    hseeding.mono (seeded.noLarger_newPass _ _ _)⟩

/-- A source whose entry point returns a text where it promises an Integer. -/
def failing : Source where
  fields := [.field ⟨"total", none, some (.access "seed" none none), none⟩]
  methods :=
    [.method ⟨"main", [], [], some "Integer",
      [.returning (.literal (.string "seed") none)], none⟩]

/-- A source that changes the variable of the host and answers it. -/
def sowing : Source where
  fields := [.field ⟨"total", none, some (.access "seed" none none), none⟩]
  methods :=
    [.method ⟨"main", [], [], some "Integer",
      [.assignment (.access "seed" none none)
        (.binary "+" (.access "total" none none) (.literal (.integer 1) none) none),
       .returning (.access "seed" none none)], none⟩]

/-- The method whose body fails stays declared but is not the current one any more, and the other
source runs beside it as it is evaluated. -/
theorem Pass.checks_confined_failing :
    seedbed.2.HasTable seedbed.1.scope.top ∧
    (seedbed.1.check failing seedbed.2).verdict = .error (.check (.result "String" "Integer")) ∧
    ((seedbed.1.session [.source failing] (.new seedbed.2)).store.table
        seedbed.1.scope.top).routines.map Routine.key
      = [((("print" : Text) : Name), 1), ((("main" : Text) : Name), 0)] ∧
    (seedbed.1.session [.source failing] (.new seedbed.2)).method? = none ∧
    seedbed.2.Grows [seedbed.1.scope.top, seedbed.1.scope.top]
      (seedbed.1.session [.source failing, .source sowing] (.new seedbed.2)).store ∧
    (seedbed.1.session [.source failing, .source sowing] (.new seedbed.2)).Confines seedbed.1 ∧
    (sowing.analyze seeding seedbed.2).verdict = .ok () ∧
    ∃ ρ υ, sowing.evaluate seeding 20 seedbed.2 = .ok (.integer 5) ρ ∧
      sowing.run seeding 20 seedbed.2 = .ok 5 υ ∧ seedbed.2.SameHost ρ υ := by
  have htop : seedbed.2.HasTable seedbed.1.scope.top := by decide +kernel
  have haccepted : (sowing.analyze seeding seedbed.2).verdict = .ok () := by decide +kernel
  obtain ⟨hrestores, hsessions, -, hruns⟩ := Pass.checks_confined seedbed.1 htop
  obtain ⟨hgrows, hconfines⟩ := hsessions [.source failing, .source sowing] (by decide +kernel)
  obtain ⟨ρ, hρ⟩ := Eval.exists_of_answer? (a := Value.integer 5) (σ := seedbed.2)
    (x := sowing.evaluate seeding 20) (by decide +kernel)
  have hrun := hruns sowing seeding rooted_seedbed.1 rooted_seedbed.2 haccepted 20
  obtain ⟨υ, hυ, hsame⟩ := (hρ ▸ hrun).exists_of_integer
  exact ⟨htop, by decide +kernel, by decide +kernel, hrestores (.source failing) (.new seedbed.2),
    hgrows, hconfines, haccepted, ρ, υ, hρ, hυ, hsame⟩

end Parlance
