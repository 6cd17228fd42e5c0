/-
Faults of looking up and declaring.

Each of them is about the name that was asked for, and its message holds that name.  So it is
reported if the name is given.
-/
import Parlance.Evaluator.Locals
import Parlance.Fault
import Parlance.Proofs.Basic
import Parlance.Store.Registry

namespace Parlance

theorem report_of_message {f : Fault} {m : Text} (h : f.message? = some m) :
    f.report = .ok ⟨f.stage, f.kind, m⟩ := by
  cases f with
  | limit l => cases h
  | _ => simp only [Fault.report, h]

/-- The message of the fault holds the name, and is missing if the name is. -/
def Fault.About (f : Fault) (name : Name) : Prop :=
  ∃ message : Text → Text, f.message? = name.map message

theorem Fault.About.reported {f : Fault} {name : Name} (h : f.About name) (hname : name ≠ none) :
    ∃ r, f.report = .ok r := by
  obtain ⟨n, rfl⟩ := Option.ne_none_iff_exists'.mp hname
  obtain ⟨message, h⟩ := h
  exact ⟨_, report_of_message h⟩

namespace Store

variable {σ : Store} {scope : Scope} {id : TableId} {name : Name} {count : Nat} {f : BindingFault}

theorem about_of_scopeVariable (h : σ.scopeVariable scope name = .error f) :
    (Fault.binding f).About name := by
  unfold scopeVariable at h
  split at h <;> cases h
  exact ⟨_, rfl⟩

theorem about_of_memberVariable (h : σ.memberVariable id name = .error f) :
    (Fault.binding f).About name := by
  unfold memberVariable at h
  split at h <;> cases h
  exact ⟨_, rfl⟩

theorem about_of_scopeFunction (h : σ.scopeFunction scope name count = .error f) :
    (Fault.binding f).About name := by
  unfold scopeFunction at h
  split at h
  · cases h
  · split at h <;> cases h <;> exact ⟨_, rfl⟩

theorem about_of_memberFunction (h : σ.memberFunction id name count = .error f) :
    (Fault.binding f).About name := by
  unfold memberFunction at h
  split at h
  · cases h
  · split at h <;> cases h <;> exact ⟨_, rfl⟩

/-- What a type is looked up by is always given. -/
theorem about_of_type {registry : RegistryId} {n : Text} (h : σ.type registry n = .error f) :
    (Fault.binding f).About n := by
  unfold type at h
  split at h <;> cases h
  exact ⟨fun n => "unknown type '" ++ n ++ "'", rfl⟩

theorem about_of_membersOfValue {registry : RegistryId} {v : Value}
    (h : σ.membersOfValue registry v = .error f) : ∃ n : Text, (Fault.binding f).About n := by
  cases v with
  | object o => cases h
  | _ => exact ⟨_, about_of_type (Except.map_error.mp h)⟩

theorem about_of_declareVariable {t : Option Ty} {v : Value} {target : Option Text}
    (h : σ.declareVariable id name t v target = .error f) : (Fault.binding f).About name := by
  unfold declareVariable at h
  split at h <;> cases h
  exact ⟨_, rfl⟩

theorem about_of_declareFunction {types : List (Option Ty)} {result : Option Ty}
    {implementation? : Option Implementation} {target : Option Text}
    (h : σ.declareFunction id name types result implementation? target = .error f) :
    (Fault.binding f).About name := by
  unfold declareFunction at h
  split at h <;> cases h
  exact ⟨_, rfl⟩

end Store

theorem Frame.about_of_declare {frame : Frame} {name : Name} {v : Value} {f : BindingFault}
    (h : Frame.declare frame name v = .error f) : (Fault.binding f).About name := by
  unfold Frame.declare at h
  split at h <;> cases h
  exact ⟨_, rfl⟩

theorem Frame.about_of_declareAll {bs : List (Name × Value)} {f : BindingFault} :
    ∀ {frame : Frame}, Frame.declareAll frame bs = .error f →
      ∃ b ∈ bs, (Fault.binding f).About b.1 := by
  induction bs with
  | nil =>
    intro frame h
    cases h
  | cons b bs ih =>
    intro frame h
    rw [Frame.declareAll] at h
    split at h
    · next hb =>
      cases h
      exact ⟨b, List.mem_cons_self, about_of_declare hb⟩
    · obtain ⟨b', hb', ha⟩ := ih h
      exact ⟨b', List.mem_cons_of_mem _ hb', ha⟩

end Parlance
