/-
What stands after a `RETURN` does not matter.

A source and the source with everything left out that stands after the first `RETURN` of a list, at
any depth, run the same from every store: there they agree with the runs that begin in the trimmed
store, and one run agrees with both, since nothing is left to trim in what is trimmed.  If the
source passes its check, so does the other one, and what is left is annotated in the same way.
-/
import Parlance.Proofs.Reordered.Program
import Parlance.Proofs.Trimmed.Checking
import Parlance.Proofs.Trimmed.Running

namespace Parlance

namespace Trimmed

/-- Evaluations that agree with the same one end the same. -/
theorem endsSame_of_agree {α : Type} {x y z : Eval α} (hx : Agree x z) (hy : Agree y z)
    (σ : Store) : EndsSame Store.SameValues (x σ) (y σ) := by
  have hx := hx (τ := σ.revise Method.trim) rfl
  have hy := hy (τ := σ.revise Method.trim) rfl
  generalize x σ = r at hx ⊢
  generalize y σ = r' at hy ⊢
  generalize z (σ.revise Method.trim) = q at hx hy
  cases hx with
  | ok hr hs =>
    cases hr
    cases hy with
    | ok hr hs' =>
      cases hr
      exact .answer (Store.sameValues_of_revise (hs.symm.trans hs'))
    | excused h => exact h.elim
  | fault hf hs =>
    cases hf
    cases hy with
    | fault hf hs' =>
      cases hf
      exact .stop (Store.sameValues_of_revise (hs.symm.trans hs'))
    | excused h => exact h.elim
  | outOfFuel hs =>
    cases hy with
    | outOfFuel hs' => exact .stop (Store.sameValues_of_revise (hs.symm.trans hs'))
    | excused h => exact h.elim
  | excused h => exact h.elim

/-- **What stands after a `RETURN` cannot be observed.** -/
theorem trim_unobservable (s : Source) (host : Host) (σ : Store) :
    (∀ fuel, EndsSame Store.SameValues (s.evaluate host fuel σ) (s.trim.evaluate host fuel σ)) ∧
    ((s.analyze host σ).verdict = .ok () →
      s.trim.analyze host σ = (s.analyze host σ).map Source.trim) := by
  refine ⟨fun fuel => ?_, fun h => Pass.check_trim h⟩
  have again := agree_source fuel s.trim host
  rw [s.trim_trim] at again
  exact endsSame_of_agree (agree_source fuel s host) again σ

/-- A loop left by a `RETURN`, with statements after this and after the one that stands below the
loop. -/
def counting : Source where
  fields := [.field ⟨"n", none, some (.literal (.integer 0) none), none⟩]
  methods :=
    [.method ⟨"main", [], [], some "Integer",
        [.whileLoop (.binary "<" (.access "n" none none) (.literal (.integer 3) none) none)
            [.assignment (.access "n" none none)
                (.binary "+" (.access "n" none none) (.literal (.integer 1) none) none),
              .conditional
                (.binary "==" (.access "n" none none) (.literal (.integer 2) none) none)
                [.returning (.access "n" none none),
                  .assignment (.access "n" none none) (.literal (.integer 7) none)] [],
              .expression (.call "print" [.access "n" none none] none none)],
          .returning (.literal (.integer 0) none),
          .expression (.call "main" [] none none)], none⟩]

/-- Without these it is checked alike, writes as much and has the same value. -/
theorem trim_unobservable_counting :
    counting.trim.walk.length < counting.walk.length ∧
    counting.trim.analyze .none .initial = (counting.analyze .none .initial).map Source.trim ∧
    ∃ τ, counting.trim.evaluate .none 40 .initial = .ok (.integer 2) τ ∧ τ.output = "1\n" := by
  obtain ⟨ends, checked⟩ := trim_unobservable counting .none .initial
  refine ⟨by decide +kernel, checked (by decide +kernel), ?_⟩
  have ends := ends 40
  obtain ⟨σ, hσ⟩ := Eval.exists_of_answer? (x := counting.evaluate .none 40) (σ := .initial)
    (a := .integer 2) (by decide +kernel)
  have output : (Eval.after (counting.evaluate .none 40) .initial).output = "1\n" := by
    decide +kernel
  rw [Eval.after, hσ] at output
  rw [hσ] at ends
  generalize counting.trim.evaluate .none 40 .initial = r at ends
  cases ends with
  | answer h => exact ⟨_, rfl, h.output.trans output⟩

end Trimmed

end Parlance
