/-
What a check may be stopped for.

A fault of the language is reported with a message.  The limits are not, and neither is a fault
about a name that is missing.  In a tree that was read the check has no use for either: its
names are given, it has no holes, and the one literal of which a message shows the text is an
integer that has one.

What is left to the host is a function without a type.  Where a check needs one of its types,
the fault is a limit.  No check makes such a function, and none is needed: every function that
a check declares has all of its types.
-/
import Parlance.Proofs.Checking.Certified
import Parlance.Proofs.Checking.Confined
import Parlance.Proofs.Document.Spelled
import Parlance.Proofs.Running.Safe
import Parlance.Proofs.Store.Faults

namespace Parlance

open Eval (Meets)

/-! ### Types of functions -/

/-- The types of a function's parameters and of its result are known. -/
structure Function.Typed (f : Function) : Prop where
  parameters : ∀ t ∈ f.parameterTypes, t ≠ none
  result : f.returnType ≠ none

/-- Every function that is bound has its types. -/
def Store.FunctionsTyped (σ : Store) : Prop :=
  ∀ r, σ.HasRoutine r → r.function.Typed

namespace Store.FunctionsTyped

variable {σ τ : Store}

theorem of_same (h : σ.FunctionsTyped) (hs : σ.SameFunctions τ) : τ.FunctionsTyped :=
  fun r hr => h r (hs.hasRoutine hr)

theorem adds {top : TableId} {f : Function} (h : σ.FunctionsTyped)
    (ha : Store.AddsFunctions top σ τ [⟨f, none⟩]) (hf : f.Typed) : τ.FunctionsTyped :=
  ha.forall_routine h (List.forall_mem_singleton.mpr hf)

/-- A new pass only adds `print`, which has its types. -/
theorem newPass {parent : Option Scope} {print? : Option Implementation} {pass : Pass}
    (h : σ.FunctionsTyped) (hp : NewPass σ parent print? pass τ) : τ.FunctionsTyped :=
  hp.forall_routine h ⟨by simp [printer], by simp [printer]⟩

theorem opened (e : Encoding) : (Store.opened e).FunctionsTyped := by
  rintro r ⟨id, hr⟩
  rw [Store.table_opened] at hr
  cases hr

end Store.FunctionsTyped

/-! ### Faults that are told -/

/-- A fault that is reported. Only where something is not known may it be that a type is missing. -/
def Fault.Told (known : Prop) (f : Fault) : Prop :=
  (∃ r, f.report = .ok r) ∨ f = .limit .openType ∧ ¬ known

section Told

variable {known : Prop}

theorem told_of_message {f : Fault} {m : Text} (h : f.message? = some m) : f.Told known :=
  .inl ⟨_, report_of_message h⟩

theorem told_of_name {f : Fault} {name : Name} (hname : name ≠ none) (h : f.About name) :
    f.Told known :=
  .inl (h.reported hname)

/-- A type that is known where something is known. -/
theorem meets_known {t : Option Ty} (h : known → t ≠ none) :
    Meets (Fault.Told known) (Ty.known t) fun s => t = some s := by
  cases t with
  | some s => exact rfl
  | none => exact .inr ⟨rfl, fun hk => h hk rfl⟩

theorem meets_require (target : Ty) {t : Option Ty} (h : known → t ≠ none) :
    Meets (Fault.Told known) (target.require t) fun s => t = some s := by
  cases t with
  | none => exact .inr ⟨rfl, fun hk => h hk rfl⟩
  | some s =>
    unfold Ty.require
    by_cases ha : target.accepts s = true
    · simp only [if_pos ha, Meets]
    · simp only [if_neg ha]
      exact told_of_message rfl

theorem meets_requireAll : (parameters arguments : List (Option Ty)) →
    (known → ∀ t ∈ parameters, t ≠ none) → (known → ∀ t ∈ arguments, t ≠ none) →
    Meets (Fault.Told known) (requireAll parameters arguments) fun _ => True
  | p :: ps, a :: as, hp, ha => by
    unfold requireAll
    refine (meets_known fun hk => hp hk p List.mem_cons_self).bind fun p' _ => ?_
    refine (meets_require p' fun hk => ha hk a List.mem_cons_self).bind fun _ _ => ?_
    exact meets_requireAll ps as (fun hk t ht => hp hk t (List.mem_cons_of_mem _ ht))
      fun hk t ht => ha hk t (List.mem_cons_of_mem _ ht)
  | [], _, _, _ => trivial
  | _ :: _, [], _, _ => trivial

theorem meets_literalType {v : Value} (h : ∃ w, Document.ofValue v = .ok w) :
    Meets (Fault.Told known) (literalType v) fun _ => True := by
  obtain ⟨w, hw⟩ := h
  cases v with
  | integer n =>
    rw [Document.ofValue] at hw
    rw [literalType]
    split
    · trivial
    · -- The integer could not be written if it had no text.
      revert hw
      cases Value.integerText n with
      | ok t => exact fun _ => told_of_message rfl
      | error l =>
        intro hw
        cases hw
  | decimal d =>
    rw [literalType]
    split
    · trivial
    · exact told_of_message rfl
  | iterable _ | object _ => cases hw
  | _ => trivial

namespace Operator

variable {l r : Option Ty}

theorem meets_comparisonType (hl : known → l ≠ none) (hr : known → r ≠ none) :
    Meets (Fault.Told known) (comparisonType l r) fun _ => True := by
  unfold comparisonType
  refine (meets_require _ hl).bind fun l' _ => (meets_require _ hr).bind fun r' _ => ?_
  split
  · trivial
  · exact told_of_message rfl

theorem meets_logicalType (hl : known → l ≠ none) (hr : known → r ≠ none) :
    Meets (Fault.Told known) (logicalType l r) fun _ => True := by
  unfold logicalType
  exact (meets_require _ hl).bind fun _ _ => (meets_require _ hr).bind fun _ _ => trivial

theorem meets_numberType (op : Arithmetic) (hl : known → l ≠ none) (hr : known → r ≠ none) :
    Meets (Fault.Told known) (numberType op l r) fun _ => True := by
  unfold numberType
  refine (meets_known hl).bind fun l' _ => ?_
  split
  · refine (meets_known hr).bind fun r' _ => ?_
    split
    · trivial
    · exact told_of_message rfl
  · exact told_of_message rfl

theorem meets_resultType (op : Operator) (hl : known → l ≠ none) (hr : known → r ≠ none) :
    Meets (Fault.Told known) (op.resultType l r) fun _ => True := by
  cases op with
  | and | or => exact meets_logicalType hl hr
  | equal | notEqual | ordered _ => exact meets_comparisonType hl hr
  | arithmetic a =>
    cases a with
    | sum =>
      simp only [resultType]
      split
      · trivial
      · exact meets_numberType _ hl hr
    | _ => exact meets_numberType _ hl hr

end Operator

theorem meets_binaryType {op : Name} {l r : Option Ty} (hop : op ≠ none) (hl : known → l ≠ none)
    (hr : known → r ≠ none) : Meets (Fault.Told known) (binaryType op l r) fun _ => True := by
  unfold binaryType
  split
  · exact Operator.meets_resultType _ hl hr
  · exact told_of_name hop ⟨_, rfl⟩

end Told

/-! ### What names mean -/

namespace Context

variable {c : Context} {known : Prop} {name : Name}

theorem meets_variableOf (hname : name ≠ none) :
    Meets (Fault.Told known) (c.variableOf name) fun _ => True := by
  unfold variableOf
  split
  · trivial
  · split
    · trivial
    · next h => exact told_of_name hname (Store.about_of_scopeVariable h)

theorem meets_memberOf (owner : Ty) (hname : name ≠ none) :
    Meets (Fault.Told known) (c.memberOf owner name) fun _ => True := by
  unfold memberOf
  split
  · trivial
  · next h => exact told_of_name hname (Store.about_of_memberVariable h)

theorem meets_functionOf (count : Nat) (hname : name ≠ none)
    (hc : known → c.store.FunctionsTyped) :
    Meets (Fault.Told known) (c.functionOf name count) fun f => known → f.Typed := by
  unfold functionOf
  split
  · next r h => exact fun hk => hc hk r (Store.hasRoutine_of_scopeFunction h)
  · next h => exact told_of_name hname (Store.about_of_scopeFunction h)

theorem meets_memberFunctionOf (owner : Ty) (count : Nat) (hname : name ≠ none)
    (hc : known → c.store.FunctionsTyped) :
    Meets (Fault.Told known) (c.memberFunctionOf owner name count) fun f => known → f.Typed := by
  unfold memberFunctionOf
  split
  · next r h => exact fun hk => hc hk r (Store.hasRoutine_of_memberFunction h)
  · next h => exact told_of_name hname (Store.about_of_memberFunction h)

theorem meets_declare (type : Option Ty) (hname : name ≠ none) :
    Meets (Fault.Told known) (c.declare name type) fun _ => True := by
  unfold declare
  split
  · split
    · exact told_of_name hname ⟨_, rfl⟩
    · trivial
  · split
    · exact told_of_name hname ⟨_, rfl⟩
    · trivial

theorem meets_type (n : Text) : Meets (Fault.Told known) (c.type n) fun _ => True := by
  unfold type Store.type
  split
  · trivial
  · exact told_of_message rfl

end Context

theorem meets_typed {known : Prop} {name : Name} (v : Variable) (hname : name ≠ none) :
    Meets (Fault.Told known) (typed name v) fun b => known → b.2 ≠ none := by
  unfold typed
  split
  · exact fun _ => Option.some_ne_none _
  · exact told_of_name hname ⟨_, rfl⟩

theorem Function.meets_applied {known : Prop} {f : Function}
    {parameters arguments : List (Option Ty)} (hf : known → f.Typed)
    (hp : ∀ t ∈ parameters, t ∈ f.parameterTypes)
    (ha : known → ∀ t ∈ arguments, t ≠ none) :
    Meets (Fault.Told known) (f.applied parameters arguments) fun b => known → b.2 ≠ none :=
  (meets_requireAll parameters arguments (fun hk t ht => (hf hk).parameters t (hp t ht)) ha).map
    fun _ _ hk => (hf hk).result

end Parlance
