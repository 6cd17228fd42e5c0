/-
Groups cannot be observed.

A source and the source without its groups, each group having made place for what it holds, run the
same from every store and with every host, as long as no assignment tries to set a group.  They
spend their fuel differently, so what is compared are runs with all amounts of fuel.  If the source
passes its check, so does the one without groups, and the nodes that are left are annotated as they
were.
-/
import Parlance.Proofs.Running.Safe
import Parlance.Proofs.Ungrouped.Checking
import Parlance.Proofs.Ungrouped.Running

namespace Parlance

namespace Ungrouped

open Eval

/-- A new pass over a source that is the same ungrouped comes to the same. -/
theorem evaluate_nears {s s' : Source}
    (h : s.ungroupWith Expr.ungroupInside = s'.ungroupWith Expr.ungroupInside) (host : Host)
    (σ : Store) (n : Nat) :
    ∃ m, Nears core Eq (s.evaluate host n σ) (s'.evaluate host m σ) :=
  (goes_evaluate (host.evaluator σ).1 h).near (.refl (host.evaluator σ).2)

/-- **Groups cannot be observed.** If no assignment has a group for its target, the source and the
one without groups have the same value or are stopped by the same fault, and leave stores that are
the same but for the groups in methods: the same variables with the same values, and the same
output. If one of them comes to no end, neither does the other, and each writes what the other
writes. If the source passes its check, the other one does too, and is annotated in the same way:
the nodes that are left have the names and types that they have in the source. -/
theorem groups_unobservable {s : Source} (h : s.TargetsUngrouped) (host : Host) (σ : Store) :
    (∀ n ∈ s.ungroup.walk, n.isGroup = false) ∧
    RunsSame (Store.SameUpTo core) (fun n => s.evaluate host n σ)
      (fun n => s.ungroup.evaluate host n σ) ∧
    ((s.analyze host σ).verdict = .ok () →
      s.ungroup.analyze host σ = (s.analyze host σ).map Source.ungroup ∧
      (s.ungroup.analyze host σ).tree.walk.map Node.label?
        = ((s.analyze host σ).tree.walk.filter fun n => !n.isGroup).map Node.label?) := by
  have same := (Source.ungroupWith_inside h).symm
  refine ⟨fun n => Source.isGroup_of_mem_walk_ungroup,
    .of_nears (evaluate_nears same host σ) (evaluate_nears same.symm host σ), fun hok => ?_⟩
  have checked : s.ungroup.analyze host σ = (s.analyze host σ).map Source.ungroup :=
    Pass.check_ungroup hok
  exact ⟨checked, checked ▸ Source.labels_ungroup _⟩

/-- A field whose value is a group, and groups in an assignment, in an argument and in a result. -/
def grouping : Source where
  fields := [.field ⟨"n", none,
    some (.group (.binary "+" (.literal (.integer 1) none) (.literal (.integer 2) none) none) none),
    none⟩]
  methods := [.method ⟨"main", [], [], some "Integer",
    [.assignment (.access "n" none none)
        (.binary "*"
          (.group (.binary "+" (.access "n" none none) (.literal (.integer 1) none) none) none)
          (.group
            (.binary "-" (.access "n" none none)
              (.group (.binary "+" (.access "n" none none) (.access "n" none none) none) none)
              none) none) none),
      .expression (.call "print"
        [.group (.binary "+" (.literal (.string "n is ") none) (.access "n" none none) none) none]
        none none),
      .returning
        (.group (.binary "-" (.access "n" none none) (.literal (.integer 1) none) none) none)],
    none⟩]

/-- Without these groups it is checked alike, writes as much and has the same value. -/
theorem groups_unobservable_grouping :
    grouping.TargetsUngrouped ∧ grouping.ungroup.walk.length < grouping.walk.length ∧
    grouping.ungroup.analyze .none .initial = (grouping.analyze .none .initial).map Source.ungroup ∧
    ∃ n τ, grouping.ungroup.evaluate .none n .initial = .ok (.integer (-13)) τ ∧
      τ.output = "n is -12\n" := by
  have targets : grouping.TargetsUngrouped := by decide +kernel
  obtain ⟨-, runs, checked⟩ := groups_unobservable targets .none .initial
  refine ⟨targets, by decide +kernel, (checked (by decide +kernel)).1, ?_⟩
  obtain ⟨σ, hσ⟩ := Eval.exists_of_answer? (x := grouping.evaluate .none 40) (σ := .initial)
    (a := .integer (-13)) (by decide +kernel)
  have output : (Eval.after (grouping.evaluate .none 40) .initial).output = "n is -12\n" := by
    decide +kernel
  rw [Eval.after, hσ] at output
  have ended : Ended (grouping.evaluate .none 40 .initial) := by
    intro τ hτ
    rw [hσ] at hτ
    cases hτ
  obtain ⟨m, ends⟩ := runs.ends 40 ended
  simp only [hσ] at ends
  refine ⟨m, ?_⟩
  generalize grouping.ungroup.evaluate .none m .initial = r at ends
  cases ends with
  | answer h => exact ⟨_, rfl, h.sameValues.output.trans output⟩

end Ungrouped

end Parlance
