/-
What an operator that passed the check makes of values of the checked kinds.

The check looks at the types of the operands and the evaluator at their kinds.  Where the
types decide the kinds the two agree, and the operator has a result of the type that the
check gave it, apart from the limits on numbers and a zero divisor.  They decide them in two
cases fewer than the check would need: an operand may be `Nil` all the same, and two operands
of type `Comparable` may be of different kinds.  The strict form excludes both, the lax form
allows for the faults that come of them.
-/
import Parlance.Proofs.Checking.Sound
import Parlance.Proofs.Kinds.Holds
import Parlance.Proofs.Running.Safe

namespace Parlance

open Eval (Meets)

/-- What a program that passed the check may stop for: a limit on numbers, a text that the stream
refuses, a division by zero and, unless all places are strict, a value of the wrong kind. -/
inductive Expected (stream : Encoding) (lax : Bool) : Fault → Prop
  | integerText : Expected stream lax (.limit .integerText)
  | decimalOverflow : Expected stream lax (.limit .decimalOverflow)
  | quotientOverflow : Expected stream lax (.limit .quotientOverflow)
  | encoding {t : Text} (ht : ¬stream.takes t = true) : Expected stream lax .encoding
  | divisionByZero : Expected stream lax (.run .divisionByZero)
  | wrongKind {cause : RunFault} (hl : lax = true) (hk : cause.kind = "RuntimeTypeError") :
      Expected stream lax (.run cause)

variable {stream : Encoding} {lax : Bool}

/-! ### Texts -/

theorem Value.integerText_error {n : Int} {l : Limit} (h : integerText n = .error l) :
    l = .integerText := by
  unfold integerText at h
  split at h
  · cases h
  · cases h
    rfl

private theorem mapM_integerText_error {items : List Int} {l : Limit}
    (h : items.mapM Value.integerText = .error l) : l = .integerText := by
  induction items with
  | nil => cases h
  | cons n ns ih =>
    rw [List.mapM_cons] at h
    cases hn : Value.integerText n with
    | error l' =>
      rw [hn] at h
      cases h
      exact Value.integerText_error hn
    | ok t =>
      cases hns : ns.mapM Value.integerText with
      | error l' =>
        rw [hn, hns] at h
        cases h
        exact ih hns
      | ok ts =>
        rw [hn, hns] at h
        cases h

/-- Only an integer that is too long has no text, on its own or in a list. -/
theorem Value.text_error {v : Value} {l : Limit} (h : v.text = .error l) : l = .integerText := by
  cases v with
  | integer n =>
    cases hn : integerText n with
    | error l' =>
      rw [text, hn] at h
      cases h
      exact integerText_error hn
    | ok t =>
      rw [text, hn] at h
      cases h
  | iterable items =>
    cases hn : items.mapM integerText with
    | error l' =>
      rw [text, hn] at h
      cases h
      exact mapM_integerText_error hn
    | ok ts =>
      rw [text, hn] at h
      cases h
  | _ => cases h

theorem Value.text_meets (v : Value) :
    Meets (Expected stream lax) (v.text.mapError .limit) fun _ => True := by
  cases h : v.text with
  | ok t => exact trivial
  | error l =>
    rw [text_error h]
    exact .integerText

theorem Value.join_meets (l r : Value) :
    Meets (Expected stream lax) ((l.join r).mapError .limit) fun v => ∃ s, v = .string s := by
  unfold join
  cases hl : l.text with
  | error e =>
    rw [text_error hl]
    exact .integerText
  | ok s =>
    cases hr : r.text with
    | error e =>
      rw [text_error hr]
      exact .integerText
    | ok t => exact ⟨s ++ t, rfl⟩

/-! ### Truth -/

theorem Value.truth_meets {v : Value} {t : Option Ty} (h : Holds lax t v)
    (ht : Ty.Takes (some Builtin.boolean.type) t) :
    Meets (Expected stream lax) v.truth fun _ => True := by
  rcases h.boolean ht with ⟨b, rfl⟩ | ⟨hl, rfl⟩
  · exact trivial
  · exact .wrongKind hl rfl

/-! ### Order -/

/-- An operand of a comparison whose type is not `Comparable` itself is of a known ordered kind. -/
private theorem exists_ordered {t : Ty} (h : Builtin.comparable.type.accepts t = true)
    (hc : t.is .comparable = false) :
    ∃ b : Builtin, t.name = b.name ∧ b ≠ .any ∧ b ≠ .comparable ∧ b.name ∈ Ty.orderedNames := by
  rcases Ty.accepts_iff.mp h with h | h | ⟨-, h⟩
  · simp [Ty.is, ← h, Builtin.type] at hc
  · exact absurd (Builtin.name_injective (a := .comparable) h) (by decide)
  · simp only [Ty.orderedNames, List.mem_cons, List.not_mem_nil, or_false] at h
    rcases h with h | h | h | h <;> exact ⟨_, h, by decide, by decide, by decide⟩

private theorem order?_of_builtin {l r : Value} {b : Builtin} (hl : l.builtin? = some b)
    (hr : r.builtin? = some b) (hb : b.name ∈ Ty.orderedNames) : ∃ o, l.order? r = some o := by
  cases l <;> cases hl <;> cases r <;> cases hr
  all_goals
    first
    | exact ⟨_, rfl⟩
    | exact absurd hb (by decide)

namespace Operator

variable {tl tr : Option Ty} {t : Ty} {l r : Value}

theorem ordered_meets {o : Ordered} (ht : comparisonType tl tr = .ok t) (hl : Holds lax tl l)
    (hr : Holds lax tr r) (hc : lax = true ∨ ∀ s, tl = some s → s.is .comparable = false) :
    Meets (Expected stream lax) ((ordered o).apply l r) (Holds lax (some t)) := by
  obtain ⟨rfl, l', r', rfl, rfl, hs, ha⟩ := comparisonType_ok ht
  simp only [apply]
  cases ho : l.order? r with
  | some c => exact Holds.of_builtin rfl rfl
  | none =>
    cases hlax : lax with
    | true => exact .wrongKind rfl rfl
    | false =>
      subst hlax
      obtain ⟨b, hb, hany, hcomp, hord⟩ := exists_ordered ha (hc.resolve_left nofun l' rfl)
      have hb' : r'.name = b.name := by
        rw [← hb]
        exact (by simpa [Ty.same] using hs : l'.name = r'.name).symm
      have hlb := (hl.builtin hb hany hcomp).resolve_right fun h => nomatch h.1
      have hrb := (hr.builtin hb' hany hcomp).resolve_right fun h => nomatch h.1
      obtain ⟨c, hc⟩ := order?_of_builtin hlb hrb hord
      rw [hc] at ho
      cases ho

end Operator

/-! ### Arithmetic -/

namespace Arithmetic

theorem onIntegers_meets (a : Arithmetic) (m n : Int) :
    Meets (Expected stream lax) (a.onIntegers m n) fun _ => True := by
  cases a with
  | quotient =>
    simp only [onIntegers]
    split
    · exact .divisionByZero
    · exact trivial
  | _ => exact trivial

theorem onDecimals_meets (a : Arithmetic) (x y : Decimal) :
    Meets (Expected stream lax) (a.onDecimals x y) fun _ => True := by
  have cause (f : Decimal.Fault) : Expected stream lax f.cause := by
    cases f with
    | overflow => exact .decimalOverflow
    | quotientTooLong => exact .integerText
    | quotientOverflow => exact .quotientOverflow
    | divisionByZero => exact .divisionByZero
  have mapped (r : Except Decimal.Fault Decimal) :
      Meets (Expected stream lax) (r.mapError Decimal.Fault.cause) fun _ => True := by
    cases r with
    | ok d => exact trivial
    | error f => exact cause f
  exact mapped _

/-- On operands of one of the number types, arithmetic stays in that type. -/
theorem onNumbers_meets {a : Arithmetic} {tl tr : Option Ty} {t : Ty} {l r : Value}
    (ht : Operator.numberType a tl tr = .ok t) (hl : Holds lax tl l) (hr : Holds lax tr r) :
    Meets (Expected stream lax) (a.onNumbers l r) (Holds lax (some t)) := by
  obtain ⟨hn, rfl, s, rfl, hs⟩ := Operator.numberType_ok ht
  rcases hn with hn | hn
  · rcases hl.builtin hn (by decide) (by decide) with hl | ⟨hlax, rfl⟩
    · rcases hr.builtin (hs.trans hn) (by decide) (by decide) with hr | ⟨hlax, rfl⟩
      · obtain ⟨m, rfl⟩ := Value.eq_integer hl
        obtain ⟨n, rfl⟩ := Value.eq_integer hr
        exact (a.onIntegers_meets m n).map fun k _ => Holds.of_builtin rfl hn
      · obtain ⟨m, rfl⟩ := Value.eq_integer hl
        exact .wrongKind hlax rfl
    · exact .wrongKind hlax rfl
  · rcases hl.builtin hn (by decide) (by decide) with hl | ⟨hlax, rfl⟩
    · rcases hr.builtin (hs.trans hn) (by decide) (by decide) with hr | ⟨hlax, rfl⟩
      · obtain ⟨x, rfl⟩ := Value.eq_decimal hl
        obtain ⟨y, rfl⟩ := Value.eq_decimal hr
        exact (a.onDecimals_meets x y).map fun z _ => Holds.of_builtin rfl hn
      · obtain ⟨x, rfl⟩ := Value.eq_decimal hl
        exact .wrongKind hlax rfl
    · exact .wrongKind hlax rfl

end Arithmetic

/-! ### All operators -/

private theorem isString_of_builtin? {v : Value} (h : v.builtin? = some .string) :
    v.isString = true := by
  cases v <;> cases h
  rfl

/-- Where one operand has type String, only `Nil` in its place keeps the sum from joining. -/
private theorem isString_or_nil {t : Option Ty} {v : Value} (h : Holds lax t v)
    (ht : Ty.isKnown t .string = true) : v.isString = true ∨ lax = true ∧ v = .nil := by
  cases t with
  | none => cases ht
  | some s =>
    have hs : s.name = Builtin.string.name := by simpa [Ty.isKnown, Ty.is] using ht
    exact (h.builtin hs (by decide) (by decide)).imp_left isString_of_builtin?

private theorem isString_of_number {t : Ty} {v : Value} (h : Holds lax (some t) v)
    (ht : t.name = Builtin.integer.name ∨ t.name = Builtin.decimal.name) : v.isString = false := by
  have of_builtin {b : Builtin} (hb : b ≠ .string)
      (h : v.builtin? = some b ∨ lax = true ∧ v = .nil) : v.isString = false := by
    rcases h with h | ⟨-, rfl⟩
    · cases v with
      | string s => exact absurd (Option.some.inj h).symm hb
      | _ => rfl
    · rfl
  rcases ht with ht | ht
  · exact of_builtin (by decide) (h.builtin ht (by decide) (by decide))
  · exact of_builtin (by decide) (h.builtin ht (by decide) (by decide))

namespace Operator

variable {tl tr : Option Ty} {t : Ty} {l r : Value}

theorem sum_meets (ht : (arithmetic .sum).resultType tl tr = .ok t) (hl : Holds lax tl l)
    (hr : Holds lax tr r) :
    Meets (Expected stream lax) ((arithmetic .sum).apply l r) (Holds lax (some t)) := by
  simp only [resultType] at ht
  simp only [apply]
  split at ht
  · next hs =>
    cases ht
    split
    · have hmeets : Meets (Expected stream lax) ((l.join r).mapError .limit)
          fun v => ∃ s, v = .string s :=
        Value.join_meets l r
      cases hj : (l.join r).mapError Fault.limit with
      | ok v =>
        rw [hj] at hmeets
        obtain ⟨s, rfl⟩ := hmeets
        exact .of_builtin rfl rfl
      | error f => rwa [hj] at hmeets
    · next hn =>
      simp only [Bool.or_eq_true, not_or] at hn
      rcases Bool.or_eq_true _ _ ▸ hs with hs | hs
      · obtain ⟨hlax, rfl⟩ := (isString_or_nil hl hs).resolve_left hn.1
        exact .wrongKind hlax rfl
      · obtain ⟨hlax, rfl⟩ := (isString_or_nil hr hs).resolve_left hn.2
        cases l <;> exact .wrongKind hlax rfl
  · obtain ⟨hn, htl, s, htr, hs⟩ := numberType_ok ht
    have hls := isString_of_number (htl ▸ hl) hn
    have hrs := isString_of_number (htr ▸ hr) (hs ▸ hn)
    rw [hls, hrs]
    exact Arithmetic.onNumbers_meets ht hl hr

/-- **On values of the operands' types an operator that passed the check answers a value of the
type the check gave it**, or fails in a way to be expected. -/
theorem apply_meets {o : Operator} (ht : o.resultType tl tr = .ok t) (hl : Holds lax tl l)
    (hr : Holds lax tr r)
    (hc : lax = true ∨ ∀ c, o = ordered c → ∀ s, tl = some s → s.is .comparable = false) :
    Meets (Expected stream lax) (o.apply l r) (Holds lax (some t)) := by
  have equality (h : comparisonType tl tr = .ok t) (b : Bool) :
      Holds lax (some t) (.boolean b) := by
    rw [(comparisonType_ok h).1]
    exact .of_builtin rfl rfl
  have logical (h : logicalType tl tr = .ok t) :
      Meets (Expected stream lax) (r.truth.map .boolean) (Holds lax (some t)) := by
    obtain ⟨rfl, -, hb⟩ := logicalType_ok h
    exact (Value.truth_meets hr hb).map fun b _ => .of_builtin rfl rfl
  cases o with
  | and => exact logical ht
  | or => exact logical ht
  | equal => exact equality ht _
  | notEqual => exact equality ht _
  | ordered c => exact ordered_meets ht hl hr (hc.imp_right fun h => h c rfl)
  | arithmetic a =>
    cases a with
    | sum => exact sum_meets ht hl hr
    | difference => exact Arithmetic.onNumbers_meets ht hl hr
    | product => exact Arithmetic.onNumbers_meets ht hl hr
    | quotient => exact Arithmetic.onNumbers_meets ht hl hr

/-- What the left operand settles alone is of that type as well. -/
theorem settled_meets {o : Operator} (ht : o.resultType tl tr = .ok t) (hl : Holds lax tl l) :
    Meets (Expected stream lax) (o.settled l) fun s =>
      ∀ b, s = some b → Holds lax (some t) (.boolean b) := by
  have logical (h : logicalType tl tr = .ok t) (f : Bool → Option Bool) :
      Meets (Expected stream lax) (l.truth >>= fun b => pure (f b)) fun s =>
        ∀ b, s = some b → Holds lax (some t) (.boolean b) := by
    obtain ⟨rfl, hb, -⟩ := logicalType_ok h
    have meets : Meets (Expected stream lax) l.truth fun _ => True := Value.truth_meets hl hb
    cases hv : l.truth with
    | ok b => exact fun b' _ => .of_builtin rfl rfl
    | error f => rwa [hv] at meets
  cases o with
  | and => exact logical ht fun b => if b then none else some false
  | or => exact logical ht fun b => if b then some true else none
  | _ => exact nofun

end Operator

/-! ### Operators by name -/

section Named

variable {op : Name} {tl tr : Option Ty} {t : Ty} {l r : Value}

theorem binarySettled_meets (ht : binaryType op tl tr = .ok t) (hl : Holds lax tl l) :
    Meets (Expected stream lax) (binarySettled op l) fun s =>
      ∀ b, s = some b → Holds lax (some t) (.boolean b) := by
  unfold binaryType at ht
  unfold binarySettled
  cases ho : Operator.ofName? op with
  | some o =>
    rw [ho] at ht
    exact Operator.settled_meets ht hl
  | none =>
    rw [ho] at ht
    cases ht

theorem binaryApply_meets (ht : binaryType op tl tr = .ok t) (hl : Holds lax tl l)
    (hr : Holds lax tr r)
    (hc : lax = true ∨ ∀ c, Operator.ofName? op = some (.ordered c) →
      ∀ s, tl = some s → s.is .comparable = false) :
    Meets (Expected stream lax) (binaryApply op l r) (Holds lax (some t)) := by
  unfold binaryType at ht
  unfold binaryApply
  cases ho : Operator.ofName? op with
  | some o =>
    rw [ho] at ht
    exact Operator.apply_meets ht hl hr (hc.imp_right fun h c he => h c (he ▸ ho))
  | none =>
    rw [ho] at ht
    cases ht

end Named

end Parlance
