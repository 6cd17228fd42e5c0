/-
The rows of the operators' tables.

The check goes by types and the evaluation by kinds.  Here each operator is asked what it makes
of two values and of the very types that their kinds name.  What passes the check is not refused
for its kinds: that is the case of `Operator.result_strict` in which the types are those of the
kinds.  The converse goes by the rows of the evaluation's table, and is not to be had of `AND`
and `OR`, which need not look at their right operand, nor of equality, which is defined on all.
-/
import Parlance.Proofs.Operators.Result

namespace Parlance

/-! ### The types of kinds -/

/-- The kinds that have an order. -/
def Builtin.ordered : List Builtin :=
  [integer, decimal, character, string]

section Kinds

variable {l r v : Value} {b c : Builtin}

theorem Value.builtin_ne_comparable (h : v.builtin? = some b) : b ≠ .comparable := by
  rintro rfl
  cases v <;> cases h

theorem Holds.of_kind (h : v.builtin? = some b) : Holds false (some b.type) v :=
  .of_builtin h rfl

theorem Operator.comparisonType_iff (hb : b ≠ .comparable) :
    (∃ t, comparisonType (some b.type) (some c.type) = .ok t) ↔ b = c ∧ b ∈ Builtin.ordered := by
  constructor
  · rintro ⟨t, ht⟩
    obtain ⟨-, _, _, hl, hr, hs, ha⟩ := comparisonType_ok ht
    cases hl
    cases hr
    have hbc : b = c := Builtin.name_injective (by simpa [Ty.same, Builtin.type] using hs)
    subst hbc
    refine ⟨rfl, ?_⟩
    rcases Ty.accepts_iff.mp ha with h | h | ⟨-, h⟩
    · exact absurd (Builtin.name_injective (a := .comparable) (b := b) h).symm hb
    · exact absurd (Builtin.name_injective (a := .comparable) h) (by decide)
    · revert h
      cases b <;> decide
  · rintro ⟨rfl, hb⟩
    simp only [Builtin.ordered, List.mem_cons, List.not_mem_nil, or_false] at hb
    rcases hb with rfl | rfl | rfl | rfl <;> exact ⟨_, rfl⟩

theorem Operator.logicalType_iff :
    (∃ t, logicalType (some b.type) (some c.type) = .ok t) ↔ b = .boolean ∧ c = .boolean := by
  have boolean {b : Builtin} (h : Ty.Takes (some Builtin.boolean.type) (some b.type)) :
      b = .boolean := by
    obtain ⟨_, _, ht, hs, ha⟩ := h
    cases ht
    cases hs
    revert ha
    cases b <;> decide
  constructor
  · rintro ⟨t, ht⟩
    obtain ⟨-, hb, hc⟩ := logicalType_ok ht
    exact ⟨boolean hb, boolean hc⟩
  · rintro ⟨rfl, rfl⟩
    exact ⟨_, rfl⟩

/-- Two values have an order only if they are of one kind that has one. -/
theorem Value.ordered_of_order? {o : Ordering} (h : l.order? r = some o)
    (hl : l.builtin? = some b) (hr : r.builtin? = some c) : b = c ∧ b ∈ Builtin.ordered := by
  unfold order? at h
  split at h
  case h_5 => cases h
  all_goals
    cases hl
    cases hr
    exact ⟨rfl, by decide⟩

theorem Value.truth_of_kind (h : v.builtin? = some b) (hb : b ≠ .boolean) :
    ∃ f, v.truth = .error f ∧ f.kind = "RuntimeTypeError" := by
  cases v with
  | boolean x =>
    cases h
    exact absurd rfl hb
  | _ => exact ⟨_, rfl, rfl⟩

end Kinds

/-! ### What the evaluation does not refuse passes the check -/

section Converse

variable {l r : Value} {b c : Builtin} (hl : l.builtin? = some b) (hr : r.builtin? = some c)
include hl hr

theorem Arithmetic.numberType_of_onNumbers {a : Arithmetic}
    (h : ∀ f, a.onNumbers l r = .error f → f.kind ≠ "RuntimeTypeError") :
    Operator.numberType a (some b.type) (some c.type) = .ok b.type := by
  unfold onNumbers at h
  split at h
  · cases hl
    cases hr
    rfl
  · cases hl
    cases hr
    rfl
  · exact absurd rfl (h _ rfl)

namespace Operator

theorem resultType_of_sum
    (h : ∀ f, (arithmetic .sum).apply l r = .error f → f.kind ≠ "RuntimeTypeError") :
    ∃ t, (arithmetic .sum).resultType (some b.type) (some c.type) = .ok t := by
  have known {v : Value} {b : Builtin} (hv : v.builtin? = some b) :
      Ty.isKnown (some b.type) .string = v.isString := by
    cases v <;> cases hv <;> rfl
  simp only [apply] at h
  simp only [resultType, known hl, known hr]
  by_cases hs : (l.isString || r.isString) = true
  · exact ⟨_, if_pos hs⟩
  · rw [if_neg hs] at h ⊢
    exact ⟨_, Arithmetic.numberType_of_onNumbers hl hr h⟩

/-- Whatever an order or an arithmetic operator does not refuse for the kinds of the operands
passes the check. -/
theorem resultType_of_result {o : Operator}
    (ho : (∃ c, o = ordered c) ∨ ∃ a, o = arithmetic a)
    (h : ∀ f, o.result l r = .error f → f.kind ≠ "RuntimeTypeError") :
    ∃ t, o.resultType (some b.type) (some c.type) = .ok t := by
  rcases ho with ⟨o, rfl⟩ | ⟨a, rfl⟩
  · cases hc : l.order? r with
    | some x =>
      exact (comparisonType_iff (Value.builtin_ne_comparable hl)).mpr
        (Value.ordered_of_order? hc hl hr)
    | none =>
      have hres : (ordered o).result l r = .error (.run (.notComparable l.kind r.kind)) := by
        show (ordered o).apply l r = _
        rw [apply, hc]
      exact absurd rfl (h _ hres)
  · cases a with
    | sum => exact resultType_of_sum hl hr h
    | _ => exact ⟨_, Arithmetic.numberType_of_onNumbers hl hr h⟩

/-- A zero divisor of the kind of the dividend is refused as such. -/
theorem quotient_of_isZero (hbc : b = c) (hz : r.isZero = true) :
    (arithmetic .quotient).result l r = .error (.run .divisionByZero) := by
  subst hbc
  cases r with
  | integer n =>
    cases hr
    obtain ⟨m, rfl⟩ := Value.eq_integer hl
    have hn : n = 0 := by simpa [Value.isZero] using hz
    subst hn
    rfl
  | decimal y =>
    cases hr
    obtain ⟨x, rfl⟩ := Value.eq_decimal hl
    have hd : x.div y = .error .divisionByZero := if_pos hz
    show (Except.mapError Decimal.Fault.cause (x.div y)).map Value.decimal = _
    rw [hd]
    rfl
  | _ => cases hz

end Operator

end Converse

/-! ### Logical operators -/

/-- Whether a value is the Boolean that settles a logical operator on its own. -/
def Value.settles (op : Name) (v : Value) : Prop :=
  op = "AND" ∧ v = .boolean false ∨ op = "OR" ∧ v = .boolean true

namespace Operator

/-- A logical operator looks at its right operand unless the left one is the Boolean `s`. -/
theorem result_logical {o : Operator} {s : Bool} (ho : o = and ∧ s = false ∨ o = or ∧ s = true)
    (l r : Value) :
    o.result l r =
      l.truth.bind fun b => if b = s then .ok (.boolean s) else r.truth.map .boolean := by
  rcases ho with ⟨rfl, rfl⟩ | ⟨rfl, rfl⟩
  · simp only [result, settled, apply]
    cases l.truth with
    | error f => rfl
    | ok b => cases b <;> rfl
  · simp only [result, settled, apply]
    cases l.truth with
    | error f => rfl
    | ok b => cases b <;> rfl

/-- A logical operator that did not pass the check is refused unless it is settled. -/
theorem logical_refused {o : Operator} {s : Bool} (ho : o = and ∧ s = false ∨ o = or ∧ s = true)
    {l r : Value} {b c : Builtin} (hl : l.builtin? = some b) (hr : r.builtin? = some c)
    (hc : ¬ ∃ t, o.resultType (some b.type) (some c.type) = .ok t) :
    if l = .boolean s then o.result l r = .ok l
    else ∃ f, o.result l r = .error f ∧ f.kind = "RuntimeTypeError" := by
  rw [result_logical ho]
  by_cases hb : b = .boolean
  · subst hb
    obtain ⟨x, rfl⟩ := Value.eq_boolean hl
    by_cases hx : x = s
    · subst hx
      rw [if_pos rfl]
      exact if_pos rfl
    · have hcb : c ≠ .boolean := by
        rintro rfl
        refine hc ⟨Builtin.boolean.type, ?_⟩
        rcases ho with ⟨rfl, -⟩ | ⟨rfl, -⟩ <;> rfl
      obtain ⟨f, hf, hk⟩ := Value.truth_of_kind hr hcb
      rw [if_neg (by simpa using hx)]
      refine ⟨f, ?_, hk⟩
      show (if x = s then _ else _) = _
      rw [if_neg hx, hf]
      rfl
  · obtain ⟨f, hf, hk⟩ := Value.truth_of_kind hl hb
    rw [if_neg (by rintro rfl; cases hl; exact hb rfl), hf]
    exact ⟨f, rfl, hk⟩

end Operator

/-! ### What passes the check is not refused -/

/-- Operands of known types do not pass the check only for these types. -/
theorem Operator.resultType_error {o : Operator} {tl tr : Ty} {f : Fault}
    (h : o.resultType (some tl) (some tr) = .error f) : f.kind = "TypeMismatch" := by
  have require {target source : Ty} {f : Fault} (h : target.require (some source) = .error f) :
      f.kind = "TypeMismatch" := by
    simp only [Ty.require] at h
    split at h <;> cases h
    rfl
  have comparison (h : comparisonType (some tl) (some tr) = .error f) :
      f.kind = "TypeMismatch" := by
    rcases bind_error.mp h with h | ⟨x, -, h⟩
    · exact require h
    · rcases bind_error.mp h with h | ⟨y, -, h⟩
      · exact require h
      · split at h <;> cases h
        rfl
  have logical (h : logicalType (some tl) (some tr) = .error f) : f.kind = "TypeMismatch" := by
    rcases bind_error.mp h with h | ⟨x, -, h⟩
    · exact require h
    · rcases bind_error.mp h with h | ⟨y, -, h⟩
      · exact require h
      · cases h
  have number {a : Arithmetic} (h : numberType a (some tl) (some tr) = .error f) :
      f.kind = "TypeMismatch" := by
    rcases bind_error.mp h with h | ⟨x, -, h⟩
    · cases h
    · split at h
      · rcases bind_error.mp h with h | ⟨y, -, h⟩
        · cases h
        · split at h <;> cases h
          rfl
      · cases h
        rfl
  cases o with
  | and => exact logical h
  | or => exact logical h
  | equal => exact comparison h
  | notEqual => exact comparison h
  | ordered c => exact comparison h
  | arithmetic a =>
    cases a with
    | sum =>
      simp only [resultType] at h
      split at h
      · cases h
      · exact number h
    | _ => exact number h

/-- The type of a result is always that of a kind. -/
theorem Operator.resultType_name {o : Operator} {tl tr : Option Ty} {t : Ty}
    (h : o.resultType tl tr = .ok t) :
    ∃ k : Builtin, t.name = k.name ∧ k ≠ .any ∧ k ≠ .comparable := by
  have boolean (h : t = Builtin.boolean.type) :
      ∃ k : Builtin, t.name = k.name ∧ k ≠ .any ∧ k ≠ .comparable :=
    ⟨.boolean, h ▸ rfl, by decide, by decide⟩
  have number {a : Arithmetic} (h : numberType a tl tr = .ok t) :
      ∃ k : Builtin, t.name = k.name ∧ k ≠ .any ∧ k ≠ .comparable := by
    rcases (numberType_ok h).1 with h | h
    · exact ⟨_, h, by decide, by decide⟩
    · exact ⟨_, h, by decide, by decide⟩
  cases o with
  | and => exact boolean (logicalType_ok h).1
  | or => exact boolean (logicalType_ok h).1
  | equal => exact boolean (comparisonType_ok h).1
  | notEqual => exact boolean (comparisonType_ok h).1
  | ordered c => exact boolean (comparisonType_ok h).1
  | arithmetic a =>
    cases a with
    | sum =>
      simp only [resultType] at h
      split at h
      · cases h
        exact ⟨.string, rfl, by decide, by decide⟩
      · exact number h
    | _ => exact number h

section Direct

variable {l r : Value} {b c : Builtin} (hl : l.builtin? = some b) (hr : r.builtin? = some c)
include hl hr

/-- On values of the very kinds that the checked types name, an operator has a value of the kind
that its type names, and is not refused for the kinds. -/
theorem Operator.result_of_resultType {o : Operator} {t : Ty}
    (ht : o.resultType (some b.type) (some c.type) = .ok t) :
    (∃ v, o.result l r = .ok v ∧ v.kind = t.name) ∨
      ∃ f, o.result l r = .error f ∧ f.kind ≠ "RuntimeTypeError" := by
  have hb : b.type.is .comparable = false := by
    rw [Ty.is, beq_eq_false_iff_ne]
    exact fun h => Value.builtin_ne_comparable hl (Builtin.name_injective h)
  rcases result_strict ht (.of_kind hl) (.of_kind hr) (fun _ _ => hb) with
    ⟨v, hv, hh⟩ | ⟨f, hf, -, hk⟩
  · obtain ⟨k, hn, hany, hcomp⟩ := resultType_name ht
    have hvk := (hh.builtin hn hany hcomp).resolve_right fun h => by cases h.1
    exact .inl ⟨v, hv, (Value.kind_of_builtin? hvk).trans hn.symm⟩
  · exact .inr ⟨f, hf, hk⟩

/-- A logical operator that passed the check has a Boolean: neither operand is refused. -/
theorem Operator.logical_ok {o : Operator} {s : Bool}
    (ho : o = and ∧ s = false ∨ o = or ∧ s = true) {t : Ty}
    (ht : o.resultType (some b.type) (some c.type) = .ok t) :
    ∃ x, o.result l r = .ok (.boolean x) := by
  have hb : b = .boolean ∧ c = .boolean := by
    rcases ho with ⟨rfl, -⟩ | ⟨rfl, -⟩ <;> exact logicalType_iff.mp ⟨t, ht⟩
  obtain ⟨rfl, rfl⟩ := hb
  obtain ⟨x, rfl⟩ := Value.eq_boolean hl
  obtain ⟨y, rfl⟩ := Value.eq_boolean hr
  rw [result_logical ho]
  by_cases hx : x = s
  · exact ⟨s, if_pos hx⟩
  · exact ⟨y, if_neg hx⟩

end Direct

end Parlance
