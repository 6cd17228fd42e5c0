/-
Runs that differ in the names of a method's variables.

Two runs of this kind are in stores that differ in nothing but the methods that functions run, and
these are alike.  What is looked up does not depend on what functions do, and no function of the
host does either, so the same is found in both, until a method is called: there the one run goes
on in frames that hold the same values under other names.

Only faults about a name that a method declares twice can tell the runs apart, and these are
reported in the same way but for the name.
-/
import Parlance.Program
import Parlance.Proofs.Paired.Relocation

namespace Parlance

/-- Faults that are reported alike: at the same stage and of the same kind, or as the same
limit. -/
def Fault.Similar (f g : Fault) : Prop :=
  g.report.map (fun r => (r.stage, r.kind)) = f.report.map fun r => (r.stage, r.kind)

theorem Fault.Similar.refl (f : Fault) : f.Similar f :=
  rfl

namespace Renamed

/-- The tables of both runs are the same ones. -/
def relocation : Relocation :=
  .here Fault.Similar .refl Eq Encoding.takes_of_eq

/-- What matters to runs of code with other names. -/
def code : Likeness :=
  relocation.code

theorem code_reflexive : code.Reflexive :=
  relocation.code_reflexive

/-- The pairing of two runs of code with other names. -/
def pairing : Pairing :=
  relocation.pairing

/-- **What is found does not depend on the names in methods.** -/
theorem pairing_lawful : pairing.Lawful :=
  relocation.pairing_lawful

end Renamed

end Parlance
