/-
Operators that passed the check are safe on the values that their operands' types admit.

The check goes by the types of the operands, and a type such as `Any` or `Comparable` admits
values of several kinds.  `Any` is no matter, for the only operator that takes an operand of
that type is a sum with a String, and it takes every value.  `Comparable` is: two operands of
that type pass the check of an order, and may still be an Integer and a String.  With these
left out, the types decide the kinds, and the operator has a result of the type that was
promised, unless the divisor is zero or the result is beyond the limits on numbers.
-/
import Parlance.Proofs.Operators.Result

namespace Parlance

theorem Operator.text_ordered {op : Name} {c : Ordered} (h : op = some (ordered c).text) :
    ordersOperands op = true := by
  rw [← ofName?_eq_some] at h
  rw [ordersOperands, h]

/-- **An operator that passed the check is safe on every value that its operands' types admit**:
evaluated on two of them it has a value of the type that the check gave it, or the divisor of a
quotient is zero, or the result is beyond a limit on numbers.  Operands that are only known to be
`Comparable` are not ordered. -/
theorem eval_binary_safe {op : Name} {tl tr t : Ty} {l r : Value}
    (ht : binaryType op (some tl) (some tr) = .ok t)
    (hl : l.builtin? ≠ none) (hal : tl.admits l = true)
    (hr : r.builtin? ≠ none) (har : tr.admits r = true)
    (hc : ordersOperands op = true → tl.is .comparable = false)
    (pass : Pass) (locals : Locals) (fuel : Nat) (sl sr s : Option Ty) (σ : Store) :
    (∃ v, eval pass locals (fuel + 2) (.binary op (.literal l sl) (.literal r sr) s) σ = .ok v σ ∧
      t.admits v = true) ∨
    ∃ f, eval pass locals (fuel + 2) (.binary op (.literal l sl) (.literal r sr) s) σ =
        .error (.fault f) σ ∧
      (f = .run .divisionByZero ∧ op = "/" ∧ r.isZero = true ∨
        f = .limit .integerText ∨ f = .limit .decimalOverflow ∨
        f = .limit .quotientOverflow ∧ op = "/") := by
  rw [eval_binary_literals]
  unfold binaryType at ht
  cases ho : Operator.ofName? op with
  | none =>
    rw [ho] at ht
    cases ht
  | some o =>
    rw [ho] at ht
    obtain rfl := Operator.ofName?_eq_some.mp ho
    rw [binaryResult_text]
    rcases Operator.result_strict ht (.of_admits hl hal) (.of_admits hr har)
      (fun c he => hc (he ▸ Operator.text_ordered rfl)) with ⟨v, hv, hh⟩ | ⟨f, hf, hrefusal, hk⟩
    · rw [hv]
      obtain ⟨_, hs, ha⟩ := hh.admits
      cases hs
      exact .inl ⟨v, rfl, ha⟩
    · rw [hf]
      refine .inr ⟨f, rfl, ?_⟩
      cases hrefusal with
      | wrongKind h => exact absurd h hk
      | integerText => exact .inr (.inl rfl)
      | decimalOverflow => exact .inr (.inr (.inl rfl))
      | divisionByZero ho _ hz => exact .inl ⟨rfl, ho ▸ rfl, hz⟩
      | quotientOverflow ho _ _ => exact .inr (.inr (.inr ⟨rfl, ho ▸ rfl⟩))

/-- A nil joins a text where its type is `Any`. -/
theorem eval_binary_safe_joined :
    binaryType "+" (some Builtin.any.type) (some Builtin.string.type) =
      .ok Builtin.string.type ∧
    Builtin.any.type.admits .nil = true ∧ Builtin.string.type.admits (.string "!") = true ∧
    ∃ v, eval (Host.none.evaluator .initial).1 [] 2
        (.binary "+" (.literal .nil none) (.literal (.string "!") none) none) .initial =
          .ok v .initial ∧ Builtin.string.type.admits v = true := by
  have ht : binaryType "+" (some Builtin.any.type) (some Builtin.string.type) =
      .ok Builtin.string.type := by decide +kernel
  refine ⟨ht, by decide, by decide, ?_⟩
  rcases eval_binary_safe (l := .nil) (r := .string "!") ht (by decide) (by decide) (by decide)
    (by decide) (by decide) (Host.none.evaluator .initial).1 [] 0 none none none .initial with
    h | ⟨f, hf, -⟩
  · exact h
  · rw [eval_binary_literals] at hf
    cases hf

/-- Two operands of type `Comparable` pass the check of an order and are refused for their kinds,
and a quotient of two decimals may be refused for neither of the limits that the other operators
have. -/
theorem eval_binary_refused :
    (binaryType "<" (some Builtin.comparable.type) (some Builtin.comparable.type) =
        .ok Builtin.boolean.type ∧
      Builtin.comparable.type.admits (.integer 1) = true ∧
      Builtin.comparable.type.admits (.string "x") = true ∧
      ∃ f, eval (Host.none.evaluator .initial).1 [] 2
          (.binary "<" (.literal (.integer 1) none) (.literal (.string "x") none) none) .initial =
            .error (.fault f) .initial ∧ f.kind = "RuntimeTypeError") ∧
    (binaryType "/" (some Builtin.decimal.type) (some Builtin.decimal.type) =
        .ok Builtin.decimal.type ∧
      Builtin.decimal.type.admits (.decimal ⟨false, 1, Decimal.maxAdjusted⟩) = true ∧
      Builtin.decimal.type.admits (.decimal ⟨false, 1, -1⟩) = true ∧
      ∃ f, eval (Host.none.evaluator .initial).1 [] 2
          (.binary "/" (.literal (.decimal ⟨false, 1, Decimal.maxAdjusted⟩) none)
            (.literal (.decimal ⟨false, 1, -1⟩) none) none) .initial =
            .error (.fault f) .initial ∧
        f.kind ≠ "DivideByZero" ∧ f ≠ .limit .integerText ∧ f ≠ .limit .decimalOverflow) := by
  refine ⟨⟨by decide +kernel, by decide, by decide, .run (.notComparable "Integer" "String"), ?_,
    by decide⟩, by decide +kernel, by decide, by decide, .limit .quotientOverflow, ?_, by decide⟩
  · rw [eval_binary_literals]
    rfl
  · have : binaryResult "/" (.decimal ⟨false, 1, Decimal.maxAdjusted⟩) (.decimal ⟨false, 1, -1⟩) =
        .error (.limit .quotientOverflow) := by decide +kernel
    rw [eval_binary_literals, this]
    rfl

end Parlance
