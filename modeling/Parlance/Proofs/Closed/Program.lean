/-
No host captures a closed program.

A source that passes the check without a host, or whose run without one does not stop for a name
or for a number of arguments, depends on nothing that a host provides: it is annotated the same
and runs the same under every host, whatever names the host has bound and whatever types it has
registered, and it changes none of the host's variables.
-/
import Parlance.Proofs.Closed.Checking
import Parlance.Proofs.Closed.Running
import Parlance.Proofs.Running.Safe

namespace Parlance

/-- The registry of the host, if it gives one, knows the built-in types: it is one that was made
new at some time, since when types have only been added. -/
def Host.KnowsBuiltins (host : Host) (σ : Store) : Prop :=
  ∀ id ∈ host.registry, ∀ b : Builtin, ∃ t, σ.type? id b.name = some t

/-- No literal of the source is an object: these are made by hosts, and have no literals. -/
structure Source.ObjectFree (s : Source) : Prop where
  nodes : ∀ o t, .expr (.literal (.object o) t) ∉ s.walk
  /-- Nor is one in the value of a field that stands in a node of another form. -/
  stray : ∀ sketch part o t, .hole (.stray sketch) ∈ s.fields → sketch.part? "value" = some part →
    .expr (.literal (.object o) t) ∉ walkOption part.toExpr?

/-- So its literals are of any sort that values which are no objects are of. -/
theorem Source.ObjectFree.fits {s : Source} (h : s.ObjectFree) {k : Likeness}
    (hk : ∀ v : Value, v.Hostless → k.literals v) : s.Fits k where
  nodes n hn := by
    unfold Node.Fits
    split
    · exact hk _ fun o ho => h.nodes o _ (ho ▸ hn)
    · exact .inr rfl
    · trivial
  stray sketch part hs hp n hn := by
    unfold Node.Fits
    split
    · exact hk _ fun o ho => h.stray _ _ o _ hs hp (ho ▸ hn)
    · exact .inr rfl
    · trivial

namespace Closed

open EStateM (Result)

variable {s : Source} {host : Host} {σ : Store}

/-- New passes that evaluate correspond. -/
theorem held_evaluator (host : Host) (σ : Store) :
    Held (Host.none.evaluator σ).1 (host.evaluator σ).1 σ (Host.none.evaluator σ).2
      (host.evaluator σ).2 := by
  have spec := σ.newPass_spec none none (some .print)
  have spec' := σ.newPass_spec host.parent host.registry (some .print)
  obtain ⟨fresh, apart⟩ := σ.newPass_registry none (some .print)
  have table : (Host.none.evaluator σ).2.table (Host.none.evaluator σ).1.scope.top
      = ⟨[], [⟨printer _, some .print⟩]⟩ := spec.table
  have table' : (host.evaluator σ).2.table (host.evaluator σ).1.scope.top
      = ⟨[], [⟨printer _, some .print⟩]⟩ := spec'.table
  have stream := σ.stream_newPass none none (some .print)
  have stream' := σ.stream_newPass host.parent host.registry (some .print)
  refine ⟨spec.outer, spec.top, spec'.top, ?_, ?_, ?_, stream'.1.trans stream.1.symm,
    stream'.2.trans stream.2.symm, spec'.fresh, spec'.keeps⟩
  · exact fun t ht => ⟨apart t ht, (fresh.members t ht).2⟩
  · rw [table, table']
    exact .nil
  · rw [table, table']
    exact .cons ⟨rfl, rfl, .print, nofun⟩ .nil

/-- The runs of a source without a host and under some host. -/
theorem results (h : s.ObjectFree) (host : Host) (σ : Store) (fuel : Nat) :
    (pairing (Host.none.evaluator σ).1 (host.evaluator σ).1 σ).Results
      (pairing (Host.none.evaluator σ).1 (host.evaluator σ).1 σ).Same
      (s.evaluate .none fuel σ) (s.evaluate host fuel σ) := by
  have reflexive : code.Reflexive :=
    ⟨fun _ _ => trivial, fun _ => trivial, fun _ => trivial, fun _ => trivial⟩
  have same : s.Alike code s := Source.alike_refl reflexive (fun _ => rfl) (h.fits fun _ hv => hv)
  exact (pairing_lawful _ _ σ).evaluate ⟨rfl, rfl⟩ same (held_evaluator host σ)

/-- **No host captures a closed program.** If a source passes the check without a host, it passes
under every host and is annotated so that it is written the same. If its run without a host has a
value, or stops for a fault other than an undefined name or a wrong number of arguments, its run
under every host has the same value or fault and the same output, and leaves every table that was
there as it was. -/
theorem host_captures_nothing (s : Source) (host : Host) (σ : Store) :
    (host.KnowsBuiltins σ → (s.analyze .none σ).verdict = .ok () →
      (s.analyze host σ).verdict = .ok () ∧
        Document.ofSource (s.analyze host σ).tree
          = Document.ofSource (s.analyze .none σ).tree) ∧
    (s.ObjectFree → ∀ fuel,
      (∀ v τ, s.evaluate .none fuel σ = .ok v τ →
        ∃ υ, s.evaluate host fuel σ = .ok v υ ∧ υ.output = τ.output ∧ σ.Keeps υ) ∧
      ∀ f τ, s.evaluate .none fuel σ = .error (.fault f) τ →
        f.kind ≠ "UndefinedName" → f.kind ≠ "ArityMismatch" →
        ∃ υ, s.evaluate host fuel σ = .error (.fault f) υ ∧ υ.output = τ.output ∧
          σ.Keeps υ) := by
  refine ⟨analyze, fun hs fuel => ⟨fun v τ h => ?_, fun f τ h hname harity => ?_⟩⟩
  · have results := results hs host σ fuel
    rw [h] at results
    generalize s.evaluate host fuel σ = r at results
    cases results with
    | ok hv hheld =>
      obtain ⟨rfl, -⟩ := hv
      exact ⟨_, rfl, hheld.output, hheld.keeps⟩
  · have results := results hs host σ fuel
    rw [h] at results
    generalize s.evaluate host fuel σ = r at results
    cases results with
    | fault hf hheld =>
      cases hf
      exact ⟨_, rfl, hheld.output, hheld.keeps⟩
    | excused hexcused =>
      rcases hexcused with hkind | hkind
      · exact absurd hkind hname
      · exact absurd hkind harity

/-! ### A host that has bound the same names -/

/-- A store in which a host has registered a type, and in a scope of its own has bound a variable
`total` and a function `f`. -/
def crowded : Store :=
  let (registry, σ) := Store.initial.newRegistry
  let (scope, σ) := σ.newScope none
  let declared : Except BindingFault Store := do
    let (_, σ) ← σ.register registry "Money" none none
    let (_, σ) ← σ.declareVariable scope.top ("total" : Text) (some Builtin.string.type)
      (.string "all") none
    let (_, σ) ← σ.declareFunction scope.top ("f" : Text) [some Builtin.integer.type]
      (some Builtin.string.type) (some (.host (.constant (.string "host")) false)) none
    return σ
  declared.toOption.getD σ

/-- The host that gives that scope and that registry. -/
def crowding : Host :=
  ⟨some (Store.initial.newRegistry.2.newScope none).1, some Store.initial.newRegistry.1⟩

/-- A source with a field `total` and a method `f` of its own. -/
def adding : Source where
  fields := [.field ⟨"total", none, some (.literal (.integer 1) none), none⟩]
  methods :=
    [.method ⟨"f", ["n"], [some "Integer"], some "Integer",
      [.expression (.call "print" [.access "n" none none] none none),
       .assignment (.access "total" none none)
         (.binary "+" (.access "total" none none) (.access "n" none none) none),
       .returning (.access "total" none none)], none⟩,
     .method ⟨"main", [], [], some "Integer",
      [.returning (.call "f" [.literal (.integer 2) none] none none)], none⟩]

theorem host_captures_nothing_adding :
    crowding.KnowsBuiltins crowded ∧ adding.ObjectFree ∧
    (adding.analyze crowding crowded).verdict = .ok () ∧
    Document.ofSource (adding.analyze crowding crowded).tree
      = Document.ofSource (adding.analyze .none crowded).tree ∧
    ∃ υ, adding.evaluate crowding 20 crowded = .ok (.integer 3) υ ∧ υ.output = "2\n" ∧
      crowded.Keeps υ := by
  have knows : crowding.KnowsBuiltins crowded := by
    rintro id ⟨⟩ b
    exact Option.isSome_iff_exists.mp (by cases b <;> decide +kernel)
  have free : adding.ObjectFree := by
    refine ⟨?_, ?_⟩
    · intro o t
      simp [adding, Source.walk, FieldPlace.walk, MethodPlace.walk, walkOption, walkStmts,
        Stmt.walk, Expr.walk, walkExprs]
    · intro sketch part o t h
      simp [adding] at h
  obtain ⟨analysis, run⟩ := host_captures_nothing adding crowding crowded
  obtain ⟨verdict, written⟩ := analysis knows (by decide +kernel)
  have alone := Eval.eq_of_answer? (show (adding.evaluate .none 20).answer? crowded
    = some (.integer 3) by decide +kernel)
  obtain ⟨υ, hυ, output, keeps⟩ := (run free 20).1 _ _ alone
  exact ⟨knows, free, verdict, written, υ, hυ, output.trans (by decide +kernel), keeps⟩

end Closed

end Parlance
