/-
The check and the evaluation of operators are one table.

The two tables are written apart from each other, the one by the names of types and the other by
the kinds of values.  On the types that the kinds of two values name they coincide: the operators
that order and compute are refused by the one where they are refused by the other, equality is
stricter in the check and never refused in the evaluation, and `AND` and `OR` are laxer in the
evaluation only where they do not look at their right operand.
-/
import Parlance.Proofs.Operators.Rows

namespace Parlance

/-! ### The two tables -/

/-- The names of the operators that order two values or compute with them. -/
def Operator.partialNames : List Name :=
  ["<", "<=", ">", ">=", "+", "-", "*", "/"]

theorem Operator.exists_of_partialNames {op : Name} (h : op ∈ partialNames) :
    ∃ o : Operator, op = some o.text ∧ ((∃ c, o = ordered c) ∨ ∃ a, o = arithmetic a) := by
  simp only [partialNames, List.mem_cons, List.not_mem_nil, or_false] at h
  rcases h with rfl | rfl | rfl | rfl | rfl | rfl | rfl | rfl
  · exact ⟨ordered .less, rfl, .inl ⟨_, rfl⟩⟩
  · exact ⟨ordered .lessEqual, rfl, .inl ⟨_, rfl⟩⟩
  · exact ⟨ordered .greater, rfl, .inl ⟨_, rfl⟩⟩
  · exact ⟨ordered .greaterEqual, rfl, .inl ⟨_, rfl⟩⟩
  · exact ⟨arithmetic .sum, rfl, .inr ⟨_, rfl⟩⟩
  · exact ⟨arithmetic .difference, rfl, .inr ⟨_, rfl⟩⟩
  · exact ⟨arithmetic .product, rfl, .inr ⟨_, rfl⟩⟩
  · exact ⟨arithmetic .quotient, rfl, .inr ⟨_, rfl⟩⟩

/-- That a check and an evaluation of all operators agree on two values of the kinds `b` and `c`. -/
structure TablesAgree (l r : Value) (b c : Builtin) (check : Name → Except Fault Ty)
    (run : Name → Except Fault Value) : Prop where
  /-- An operator is unknown to the one where it is unknown to the other. -/
  unknown (op : Name) :
    (∃ f, check op = .error f ∧ f.kind = "UnknownOperator") ↔
      ∃ f, run op = .error f ∧ f.kind = "UnknownOperator"
  /-- An order or an arithmetic operator passes the check where it is not refused for the kinds. -/
  defined {op : Name} (h : op ∈ Operator.partialNames) :
    (∃ t, check op = .ok t) ↔ ∀ f, run op = .error f → f.kind ≠ "RuntimeTypeError"
  /-- A value has the kind of the type that the check gave. -/
  kind {op : Name} {t : Ty} {v : Value} (ht : check op = .ok t) (hv : run op = .ok v) :
    v.kind = t.name
  /-- A logical operator that passes the check has a Boolean. -/
  logical {op : Name} (h : op ∈ (["AND", "OR"] : List Name)) {t : Ty} (ht : check op = .ok t) :
    ∃ x, run op = .ok (.boolean x)
  /-- A logical operator that does not pass the check is refused, unless it is settled. -/
  refused {op : Name} (h : op ∈ (["AND", "OR"] : List Name)) (hc : ¬ ∃ t, check op = .ok t) :
    l.settles op ∧ run op = .ok l ∨
      ¬ l.settles op ∧ ∃ f, run op = .error f ∧ f.kind = "RuntimeTypeError"
  /-- Equality has a value on all operands, and inequality the other one. -/
  equality : ∃ x, run "==" = .ok (.boolean x) ∧ run "!=" = .ok (.boolean !x)
  /-- The check takes equality on two operands of one ordered type. -/
  comparable {op : Name} (h : op ∈ (["==", "!="] : List Name)) :
    (∃ t, check op = .ok t) ↔
      b = c ∧ b ∈ ([.integer, .decimal, .character, .string] : List Builtin)
  /-- A division by zero is one of two Integers or two Decimals by a zero. -/
  division (op : Name) :
    (∃ f, run op = .error f ∧ f.kind = "DivideByZero") ↔
      op = "/" ∧ (b = .integer ∧ c = .integer ∨ b = .decimal ∧ c = .decimal) ∧ r.isZero = true
  /-- There is nothing else that can go wrong, but for the limits on numbers. -/
  faults {op : Name} {f : Fault} (h : run op = .error f) :
    f.kind ∈ ["UnknownOperator", "RuntimeTypeError", "DivideByZero"] ∨
      f = .limit .integerText ∨ f = .limit .decimalOverflow ∨
      f = .limit .quotientOverflow ∧ op = "/" ∧ b = .decimal ∧ c = .decimal

namespace Operator

theorem binaryType_text (o : Operator) (tl tr : Option Ty) :
    binaryType (some o.text) tl tr = o.resultType tl tr := by
  have ho : ofName? (some o.text) = some o := ofName?_eq_some.mpr rfl
  simp only [binaryType, ho]

/-- A name is that of an operator, or unknown to check and evaluation alike. -/
theorem text_or_unknown (op : Name) :
    (∃ o : Operator, op = some o.text) ∨
      (∀ tl tr, binaryType op tl tr = .error (.check (.unknownOperator op))) ∧
        ∀ l r, binaryResult op l r = .error (.run (.unknownOperator op)) := by
  cases ho : ofName? op with
  | some o => exact .inl ⟨o, ofName?_eq_some.mp ho⟩
  | none =>
    refine .inr ⟨fun tl tr => ?_, binaryResult_of_none ho⟩
    simp only [binaryType, ho]

end Operator

section Tables

variable {l r : Value} {b c : Builtin} (hl : l.builtin? = some b) (hr : r.builtin? = some c)
include hl hr

/-- What an operator, given by name, may refuse values of two kinds for. -/
theorem binaryResult_error {op : Name} {f : Fault} (h : binaryResult op l r = .error f) :
    f = .run (.unknownOperator op) ∧
        (∀ tl tr, binaryType op tl tr = .error (.check (.unknownOperator op))) ∨
      f.kind ∈ ["RuntimeTypeError", "DivideByZero"] ∨
      f = .limit .integerText ∨ f = .limit .decimalOverflow ∨
      f = .limit .quotientOverflow ∧ op = "/" ∧ b = .decimal ∧ c = .decimal := by
  rcases Operator.text_or_unknown op with ⟨o, rfl⟩ | ⟨hc, hu⟩
  · rw [binaryResult_text] at h
    right
    cases Operator.result_refusal h with
    | wrongKind hk => exact .inl (by simp [hk])
    | divisionByZero _ _ _ => exact .inl (by simp [Fault.kind, RunFault.kind])
    | integerText => exact .inr (.inl rfl)
    | decimalOverflow => exact .inr (.inr (.inl rfl))
    | quotientOverflow ho hl' hr' =>
      rw [hl] at hl'
      rw [hr] at hr'
      exact .inr (.inr (.inr ⟨rfl, ho ▸ rfl, Option.some.inj hl', Option.some.inj hr'⟩))
  · rw [hu] at h
    cases h
    exact .inl ⟨rfl, hc⟩

theorem binary_unknown (op : Name) :
    (∃ f, binaryType op (some b.type) (some c.type) = .error f ∧ f.kind = "UnknownOperator") ↔
      ∃ f, binaryResult op l r = .error f ∧ f.kind = "UnknownOperator" := by
  constructor
  · rintro ⟨f, hf, hk⟩
    rcases Operator.text_or_unknown op with ⟨o, rfl⟩ | ⟨-, hu⟩
    · rw [Operator.binaryType_text] at hf
      exact absurd ((Operator.resultType_error hf).symm.trans hk) (by decide)
    · exact ⟨_, hu l r, rfl⟩
  · rintro ⟨f, hf, hk⟩
    rcases binaryResult_error hl hr hf with ⟨-, hc⟩ | h | rfl | rfl | ⟨rfl, -⟩
    · exact ⟨_, hc _ _, rfl⟩
    · simp [hk] at h
    all_goals exact absurd hk (by decide)

theorem binary_defined {op : Name} (h : op ∈ Operator.partialNames) :
    (∃ t, binaryType op (some b.type) (some c.type) = .ok t) ↔
      ∀ f, binaryResult op l r = .error f → f.kind ≠ "RuntimeTypeError" := by
  obtain ⟨o, rfl, ho⟩ := Operator.exists_of_partialNames h
  rw [Operator.binaryType_text, binaryResult_text]
  constructor
  · rintro ⟨t, ht⟩ f hf
    rcases Operator.result_of_resultType hl hr ht with ⟨v, hv, -⟩ | ⟨f', hf', hk⟩
    · rw [hv] at hf
      cases hf
    · rw [hf'] at hf
      cases hf
      exact hk
  · exact Operator.resultType_of_result hl hr ho

theorem binary_kind {op : Name} {t : Ty} {v : Value}
    (ht : binaryType op (some b.type) (some c.type) = .ok t) (hv : binaryResult op l r = .ok v) :
    v.kind = t.name := by
  rcases Operator.text_or_unknown op with ⟨o, rfl⟩ | ⟨hc, -⟩
  · rw [Operator.binaryType_text] at ht
    rw [binaryResult_text] at hv
    rcases Operator.result_of_resultType hl hr ht with ⟨w, hw, hk⟩ | ⟨f, hf, -⟩
    · rw [hw] at hv
      cases hv
      exact hk
    · rw [hf] at hv
      cases hv
  · rw [hc] at ht
    cases ht

theorem binaryResult_divisionByZero (op : Name) :
    (∃ f, binaryResult op l r = .error f ∧ f.kind = "DivideByZero") ↔
      op = "/" ∧ (b = .integer ∧ c = .integer ∨ b = .decimal ∧ c = .decimal) ∧
        r.isZero = true := by
  constructor
  · rintro ⟨f, hf, hk⟩
    rcases Operator.text_or_unknown op with ⟨o, rfl⟩ | ⟨-, hu⟩
    · rw [binaryResult_text] at hf
      cases Operator.result_refusal hf with
      | wrongKind h => exact absurd (h.symm.trans hk) (by decide)
      | integerText => exact absurd hk (by decide)
      | decimalOverflow => exact absurd hk (by decide)
      | quotientOverflow _ _ _ => exact absurd hk (by decide)
      | divisionByZero ho hkind hz =>
        rw [hl, hr] at hkind
        refine ⟨ho ▸ rfl, ?_, hz⟩
        obtain rfl := Option.some.inj hkind
        cases r with
        | integer n =>
          cases hr
          exact .inl ⟨rfl, rfl⟩
        | decimal y =>
          cases hr
          exact .inr ⟨rfl, rfl⟩
        | _ => cases hz
    · rw [hu] at hf
      cases hf
      exact absurd hk (by simp [Fault.kind, RunFault.kind])
  · rintro ⟨rfl, hkind, hz⟩
    have hbc : b = c := by
      rcases hkind with ⟨rfl, rfl⟩ | ⟨rfl, rfl⟩ <;> rfl
    exact ⟨_, (binaryResult_text (.arithmetic .quotient) l r).trans
      (Operator.quotient_of_isZero hl hr hbc hz), rfl⟩

/-- **The check and the evaluation of operators are one table** on values of the built-in kinds and
the types that these kinds name. -/
theorem binary_tables_agree (pass : Pass) (locals : Locals) (fuel : Nat) (sl sr s : Option Ty)
    (σ : Store) :
    ∃ run : Name → Except Fault Value,
      (∀ op, eval pass locals (fuel + 2) (.binary op (.literal l sl) (.literal r sr) s) σ =
        Eval.lift (run op) σ) ∧
      TablesAgree l r b c (fun op => binaryType op (some b.type) (some c.type)) run := by
  refine ⟨fun op => binaryResult op l r,
    fun op => eval_binary_literals pass locals fuel op l r sl sr s σ, ?_⟩
  have logicalName {op : Name} (h : op ∈ (["AND", "OR"] : List Name)) :
      ∃ o s, op = some o.text ∧ (o = Operator.and ∧ s = false ∨ o = Operator.or ∧ s = true) ∧
        (l.settles op ↔ l = .boolean s) := by
    simp only [List.mem_cons, List.not_mem_nil, or_false] at h
    rcases h with rfl | rfl
    · exact ⟨_, _, rfl, .inl ⟨rfl, rfl⟩, by simp [Value.settles]⟩
    · exact ⟨_, _, rfl, .inr ⟨rfl, rfl⟩, by simp [Value.settles]⟩
  constructor
  case unknown => exact binary_unknown hl hr
  case defined =>
    intro op hop
    exact binary_defined hl hr hop
  case kind =>
    intro op t v ht hv
    exact binary_kind hl hr ht hv
  case logical =>
    intro op hop t ht
    obtain ⟨o, s, rfl, ho, -⟩ := logicalName hop
    rw [Operator.binaryType_text] at ht
    rw [binaryResult_text]
    exact Operator.logical_ok hl hr ho ht
  case refused =>
    intro op hop hc
    obtain ⟨o, s, rfl, ho, hs⟩ := logicalName hop
    rw [Operator.binaryType_text] at hc
    rw [binaryResult_text, hs]
    have hr := Operator.logical_refused ho hl hr hc
    by_cases h : l = .boolean s
    · rw [if_pos h] at hr
      exact .inl ⟨h, hr⟩
    · rw [if_neg h] at hr
      exact .inr ⟨h, hr⟩
  case equality =>
    exact ⟨l.same r, rfl, rfl⟩
  case comparable =>
    intro op hop
    simp only [List.mem_cons, List.not_mem_nil, or_false] at hop
    rcases hop with rfl | rfl
    · exact Operator.comparisonType_iff (Value.builtin_ne_comparable hl)
    · exact Operator.comparisonType_iff (Value.builtin_ne_comparable hl)
  case division =>
    exact binaryResult_divisionByZero hl hr
  case faults =>
    intro op f hf
    rcases binaryResult_error hl hr hf with ⟨rfl, -⟩ | h | h
    · exact .inl List.mem_cons_self
    · exact .inl (List.mem_cons_of_mem _ h)
    · exact .inr h

end Tables

/-- A decimal divided by a zero that is negative and has a digit after the point. -/
theorem binary_tables_agree_zero :
    (Value.decimal ⟨false, 15, -1⟩).builtin? = some .decimal ∧
    (Value.decimal ⟨true, 0, -1⟩).builtin? = some .decimal ∧
    ∃ f, eval (Host.none.evaluator .initial).1 [] 2
        (.binary "/" (.literal (.decimal ⟨false, 15, -1⟩) none)
          (.literal (.decimal ⟨true, 0, -1⟩) none) none) .initial =
            .error (.fault f) .initial ∧ f.kind = "DivideByZero" := by
  obtain ⟨run, hrun, h⟩ := binary_tables_agree (l := .decimal ⟨false, 15, -1⟩)
    (r := .decimal ⟨true, 0, -1⟩) rfl rfl (Host.none.evaluator .initial).1 [] 0 none none none
    .initial
  obtain ⟨f, hf, hk⟩ := (h.division "/").mpr ⟨rfl, .inr ⟨rfl, rfl⟩, rfl⟩
  refine ⟨rfl, rfl, f, ?_, hk⟩
  rw [hrun, hf]
  rfl

/-- A quotient of decimals beyond the bound on exponents is a fault of its own, which no other
operator has. -/
theorem quotient_out_of_bounds :
    ∃ f, eval (Host.none.evaluator .initial).1 [] 2
        (.binary "/" (.literal (.decimal ⟨false, 9, Decimal.maxAdjusted⟩) none)
          (.literal (.decimal ⟨false, 5, -1⟩) none) none) .initial =
            .error (.fault f) .initial ∧
      f.kind ∉ ["UnknownOperator", "RuntimeTypeError", "DivideByZero"] ∧
      f ≠ .limit .integerText ∧ f ≠ .limit .decimalOverflow := by
  have hresult : binaryResult "/" (.decimal ⟨false, 9, Decimal.maxAdjusted⟩)
      (.decimal ⟨false, 5, -1⟩) = .error (.limit .quotientOverflow) := by decide +kernel
  refine ⟨.limit .quotientOverflow, ?_, by decide⟩
  rw [eval_binary_literals, hresult]
  rfl

end Parlance
