/-
The result of an operator on two values.

A binary expression evaluates its left operand, asks whether that settles the matter, and
only then evaluates the right one.  Where both operands are values already, all of this comes
down to one result, `binaryResult`, which neither reads nor writes the store.

Three of the faults it may have say which operator they come from: an unknown name, a zero
divisor, and a quotient beyond the bounds of the decimals.
-/
import Parlance.Proofs.Kinds.Progress

namespace Parlance

/-! ### Operators and their names -/

theorem Text.eq_of_toString? {t : Text} {s : String} (h : t.toString? = some s) : t = s := by
  obtain ⟨head, rest⟩ := t
  cases rest with
  | nil =>
    cases h
    rfl
  | cons r rest => cases h

theorem Operator.text_of_ofWord? {w : String} {o : Operator} (h : ofWord? w = some o) :
    o.text = w := by
  unfold ofWord? at h
  split at h <;> cases h <;> rfl

/-- An operator is named by its text and by nothing else. -/
theorem Operator.ofName?_eq_some {op : Name} {o : Operator} :
    ofName? op = some o ↔ op = some o.text := by
  constructor
  · intro h
    obtain ⟨t, rfl, ht⟩ := Option.bind_eq_some_iff.mp h
    obtain ⟨w, hw, ho⟩ := Option.bind_eq_some_iff.mp ht
    rw [Text.eq_of_toString? hw, text_of_ofWord? ho]
  · rintro rfl
    exact ofText?_text o

/-! ### The result -/

/-- The result of an operator, given by name, on two values. -/
def binaryResult (op : Name) (left right : Value) : Except Fault Value := do
  match ← binarySettled op left with
  | some b => return .boolean b
  | none => binaryApply op left right

/-- The result of an operator on two values. -/
def Operator.result (o : Operator) (left right : Value) : Except Fault Value := do
  match ← o.settled left with
  | some b => return .boolean b
  | none => o.apply left right

theorem binaryResult_text (o : Operator) (l r : Value) :
    binaryResult (some o.text) l r = o.result l r := by
  have ho : Operator.ofName? (some o.text) = some o := Operator.ofName?_eq_some.mpr rfl
  simp only [binaryResult, binarySettled, binaryApply, ho]
  rfl

theorem binaryResult_of_none {op : Name} (h : Operator.ofName? op = none) (l r : Value) :
    binaryResult op l r = .error (.run (.unknownOperator op)) := by
  simp only [binaryResult, binarySettled, binaryApply, h]
  rfl

/-- A binary expression of two values evaluates to the result of its operator, in any scope and
without touching the store. -/
theorem eval_binary_literals (pass : Pass) (locals : Locals) (fuel : Nat) (op : Name) (l r : Value)
    (tl tr t : Option Ty) (σ : Store) :
    eval pass locals (fuel + 2) (.binary op (.literal l tl) (.literal r tr) t) σ =
      Eval.lift (binaryResult op l r) σ := by
  have literal (v : Value) (s : Option Ty) : eval pass locals (fuel + 1) (.literal v s) = pure v :=
    rfl
  rw [eval, literal, literal, pure_bind]
  simp only [pure_bind, binaryResult]
  cases binarySettled op l with
  | error f => rfl
  | ok b =>
    cases b with
    | none => rfl
    | some b => rfl

theorem Holds.of_admits {t : Ty} {v : Value} (hv : v.builtin? ≠ none) (ha : t.admits v = true) :
    Holds false (some t) v := by
  obtain ⟨b, hb⟩ := Option.ne_none_iff_exists'.mp hv
  exact ⟨t, b, rfl, hb, .inl ha⟩

/-! ### Refusals -/

/-- Whether a value is a number that is zero, of either sign and at any scale. -/
def Value.isZero : Value → Bool
  | .integer n => n == 0
  | .decimal d => d.isZero
  | _ => false

/-- What an operator may refuse two values for. A zero divisor and a quotient out of bounds tell
the operator and the kinds of its operands. -/
inductive Refusal (o : Operator) (l r : Value) : Fault → Prop
  | wrongKind {f : Fault} (hk : f.kind = "RuntimeTypeError") : Refusal o l r f
  | integerText : Refusal o l r (.limit .integerText)
  | decimalOverflow : Refusal o l r (.limit .decimalOverflow)
  | divisionByZero (ho : o = .arithmetic .quotient) (hk : l.builtin? = r.builtin?)
      (hz : r.isZero = true) : Refusal o l r (.run .divisionByZero)
  | quotientOverflow (ho : o = .arithmetic .quotient) (hl : l.builtin? = some .decimal)
      (hr : r.builtin? = some .decimal) : Refusal o l r (.limit .quotientOverflow)

theorem Decimal.bounded_error {d : Decimal} {f : Decimal.Fault} (h : d.bounded = .error f) :
    f = .overflow := by
  unfold bounded at h
  split at h
  · split at h <;> cases h
    rfl
  · split at h <;> cases h

theorem Decimal.div_error {x y : Decimal} {f : Decimal.Fault} (h : x.div y = .error f) :
    f = .divisionByZero ∧ y.isZero = true ∨ f = .quotientTooLong ∨ f = .quotientOverflow := by
  unfold div at h
  cases hy : y.isZero with
  | true =>
    rw [hy, if_pos rfl] at h
    cases h
    exact .inl ⟨rfl, rfl⟩
  | false =>
    rw [hy, if_neg (by decide)] at h
    dsimp only at h
    split at h
    · cases h
      exact .inr (.inl rfl)
    · split at h
      · cases h
        exact .inr (.inr rfl)
      · cases h

namespace Arithmetic

theorem onIntegers_refusal {a : Arithmetic} {m n : Int} {f : Fault}
    (h : a.onIntegers m n = .error f) :
    Refusal (.arithmetic a) (.integer m) (.integer n) f := by
  cases a with
  | quotient =>
    by_cases hn : n = 0
    · rw [onIntegers, if_pos hn] at h
      cases h
      exact .divisionByZero rfl rfl (by simpa [Value.isZero] using hn)
    · rw [onIntegers, if_neg hn] at h
      cases h
  | _ => cases h

theorem onDecimals_refusal {a : Arithmetic} {x y : Decimal} {f : Fault}
    (h : a.onDecimals x y = .error f) :
    Refusal (.arithmetic a) (.decimal x) (.decimal y) f := by
  obtain ⟨c, hc, rfl⟩ := Except.mapError_error.mp h
  have overflow {d : Decimal} (h : d.bounded = .error c) :
      Refusal (.arithmetic a) (.decimal x) (.decimal y) c.cause := by
    rw [Decimal.bounded_error h]
    exact .decimalOverflow
  cases a with
  | quotient =>
    rcases Decimal.div_error hc with ⟨rfl, hy⟩ | rfl | rfl
    · exact .divisionByZero rfl rfl hy
    · exact .integerText
    · exact .quotientOverflow rfl rfl rfl
  | _ => exact overflow hc

theorem onNumbers_refusal {a : Arithmetic} {l r : Value} {f : Fault}
    (h : a.onNumbers l r = .error f) : Refusal (.arithmetic a) l r f := by
  unfold onNumbers at h
  split at h
  · exact onIntegers_refusal (Except.map_error.mp h)
  · exact onDecimals_refusal (Except.map_error.mp h)
  · cases h
    exact .wrongKind rfl

end Arithmetic

theorem Value.truth_error {v : Value} {f : Fault} (h : v.truth = .error f) :
    f.kind = "RuntimeTypeError" := by
  unfold truth at h
  split at h
  · cases h
  · cases h
    rfl

theorem Value.join_error {l r : Value} {c : Limit} (h : l.join r = .error c) :
    c = .integerText := by
  unfold join at h
  cases hl : l.text with
  | error c' =>
    rw [hl] at h
    cases h
    exact text_error hl
  | ok s =>
    cases hr : r.text with
    | error c' =>
      rw [hl, hr] at h
      cases h
      exact text_error hr
    | ok t =>
      rw [hl, hr] at h
      cases h

namespace Operator

variable {o : Operator} {l r : Value} {f : Fault}

theorem settled_refusal (h : o.settled l = .error f) : Refusal o l r f := by
  have logical {g : Bool → Option Bool} (h : (l.truth >>= fun b => pure (g b)) = .error f) :
      Refusal o l r f := by
    cases ht : l.truth with
    | ok b =>
      rw [ht] at h
      cases h
    | error c =>
      rw [ht] at h
      cases h
      exact .wrongKind (Value.truth_error ht)
  cases o with
  | and => exact logical h
  | or => exact logical h
  | _ => cases h

theorem apply_refusal (h : o.apply l r = .error f) : Refusal o l r f := by
  cases o with
  | and => exact .wrongKind (Value.truth_error (Except.map_error.mp h))
  | or => exact .wrongKind (Value.truth_error (Except.map_error.mp h))
  | equal => cases h
  | notEqual => cases h
  | ordered c =>
    simp only [apply] at h
    split at h
    · cases h
    · cases h
      exact .wrongKind rfl
  | arithmetic a =>
    cases a with
    | sum =>
      simp only [apply] at h
      split at h
      · obtain ⟨c, hc, rfl⟩ := Except.mapError_error.mp h
        rw [Value.join_error hc]
        exact .integerText
      · exact Arithmetic.onNumbers_refusal h
    | _ => exact Arithmetic.onNumbers_refusal h

/-- **An operator refuses two values only for their kinds, for a zero divisor, and at a limit on
numbers.** -/
theorem result_refusal (h : o.result l r = .error f) : Refusal o l r f := by
  unfold result at h
  cases hs : o.settled l with
  | error c =>
    rw [hs] at h
    cases h
    exact settled_refusal hs
  | ok s =>
    rw [hs] at h
    cases s with
    | some b => cases h
    | none => exact apply_refusal h

/-- On values of the operands' types an operator that passed the check answers a value of the type
that the check gave it, or refuses them in a way to be expected. -/
theorem result_meets {lax : Bool} {tl tr : Option Ty} {t : Ty} (ht : o.resultType tl tr = .ok t)
    (hl : Holds lax tl l) (hr : Holds lax tr r)
    (hc : lax = true ∨ ∀ c, o = ordered c → ∀ s, tl = some s → s.is .comparable = false) :
    Eval.Meets (Expected .memory lax) (o.result l r) (Holds lax (some t)) := by
  unfold result
  have hs : Eval.Meets (Expected .memory lax) (o.settled l) _ := settled_meets ht hl
  cases hr : o.settled l with
  | error c => rwa [hr] at hs
  | ok s =>
    rw [hr] at hs
    cases s with
    | some b => exact hs b rfl
    | none => exact apply_meets ht hl ‹_› hc

/-- The same without a `Nil` or an operand that is only known to be `Comparable`: the operator does
not refuse the values for their kinds. -/
theorem result_strict {tl tr t : Ty} (ht : o.resultType (some tl) (some tr) = .ok t)
    (hl : Holds false (some tl) l) (hr : Holds false (some tr) r)
    (hc : ∀ c, o = ordered c → tl.is .comparable = false) :
    (∃ v, o.result l r = .ok v ∧ Holds false (some t) v) ∨
      ∃ f, o.result l r = .error f ∧ Refusal o l r f ∧ f.kind ≠ "RuntimeTypeError" := by
  have hm := result_meets ht hl hr (.inr fun c ho s hs => Option.some.inj hs ▸ hc c ho)
  cases hres : o.result l r with
  | ok v =>
    rw [hres] at hm
    exact .inl ⟨v, rfl, hm⟩
  | error f =>
    rw [hres] at hm
    refine .inr ⟨f, rfl, result_refusal hres, ?_⟩
    rcases hm.strict with rfl | ⟨c, -, rfl⟩ | ⟨rfl, -⟩
    · decide
    · simp [Fault.kind]
    · decide

end Operator

end Parlance
