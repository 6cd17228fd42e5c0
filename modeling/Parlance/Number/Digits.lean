/-
The decimal digits of natural numbers.

How many digits a number has is estimated from its size in bits, from below, and the
estimate is corrected by comparison with powers of ten, of which it needs one or two.  The
digits themselves are found by halving: the power of ten in the middle splits a number into
two numbers of half as many digits.  So neither takes more than a few operations on
numbers as large as the given one.

`decimalDigits_eq` says that these are the digits which division by ten gives one by one,
`digitCount` of them, and `lt_tenTo_digitCount` and `tenTo_le` that there is no digit
missing and no leading zero.
-/

namespace Parlance.Number

/-- A power of ten. -/
def tenTo (k : Nat) : Nat :=
  Nat.pow 10 k

theorem tenTo_pos (k : Nat) : 0 < tenTo k :=
  Nat.pow_pos (by decide)

theorem tenTo_succ (k : Nat) : tenTo (k + 1) = tenTo k * 10 :=
  rfl

/-! ### Their number -/

/-- The first number of digits from `k` on that a number fits in, at most `tries` further on. -/
def countFrom (n : Nat) : (tries k : Nat) → Nat
  | 0, k => k
  | tries + 1, k => if n < tenTo k then k else countFrom n tries (k + 1)

/-- How many decimal digits a number has; zero has one. The least power of two in which a number
fits bounds them from below, since `10 ^ 643` is less than `2 ^ 2136`. -/
def digitCount (n : Nat) : Nat :=
  countFrom n (n.log2 + 1) (n.log2 * 643 / 2136 + 1)

theorem le_countFrom (n tries k : Nat) : k ≤ countFrom n tries k := by
  induction tries generalizing k with
  | zero => exact Nat.le_refl k
  | succ tries ih =>
    rw [countFrom]
    split
    · exact Nat.le_refl k
    · exact Nat.le_trans (Nat.le_succ k) (ih (k + 1))

theorem digitCount_pos (n : Nat) : 0 < digitCount n :=
  Nat.lt_of_lt_of_le (Nat.succ_pos _) (le_countFrom _ _ _)

theorem lt_tenTo_countFrom {n tries k : Nat} (h : n < tenTo (k + tries)) :
    n < tenTo (countFrom n tries k) := by
  induction tries generalizing k with
  | zero => exact h
  | succ tries ih =>
    rw [countFrom]
    split
    · assumption
    · exact ih (by rwa [Nat.add_assoc, Nat.add_comm 1 tries])

/-- A number fits in as many digits as it has. -/
theorem lt_tenTo_digitCount (n : Nat) : n < tenTo (digitCount n) := by
  refine lt_tenTo_countFrom (Nat.lt_of_lt_of_le (Nat.lt_log2_self (n := n)) ?_)
  refine Nat.le_trans (Nat.pow_le_pow_left (by decide : 2 ≤ 10) _) ?_
  exact Nat.pow_le_pow_right (by decide) (by omega)

theorem tenTo_le_of_lt_countFrom {n tries k j : Nat} (hk : k ≤ j)
    (h : j < countFrom n tries k) : tenTo j ≤ n := by
  induction tries generalizing k with
  | zero => exact absurd h (Nat.not_lt.mpr hk)
  | succ tries ih =>
    rw [countFrom] at h
    split at h
    · exact absurd h (Nat.not_lt.mpr hk)
    · next hn =>
      by_cases e : k = j
      · exact e ▸ Nat.not_lt.mp hn
      · exact ih (by omega) h

/-- A bound on a fixed power of ten by a power of two bounds all others in proportion. -/
theorem tenTo_le_twoTo {p q : Nat} (hq : q ≠ 0) (h : tenTo p ≤ Nat.pow 2 q) (size : Nat) :
    tenTo (size * p / q) ≤ Nat.pow 2 size := by
  refine (Nat.pow_le_pow_iff_left hq).mp ?_
  calc Nat.pow (tenTo (size * p / q)) q
      = tenTo (size * p / q * q) := (Nat.pow_mul ..).symm
    _ ≤ tenTo (p * size) := by
      refine Nat.pow_le_pow_right (by decide) ?_
      rw [Nat.mul_comm p]
      exact Nat.div_mul_le_self _ _
    _ = Nat.pow (tenTo p) size := Nat.pow_mul ..
    _ ≤ Nat.pow (Nat.pow 2 q) size := Nat.pow_le_pow_left h _
    _ = Nat.pow (Nat.pow 2 size) q :=
      (Nat.pow_mul ..).symm.trans ((congrArg (Nat.pow 2) (Nat.mul_comm q size)).trans
        (Nat.pow_mul ..))

theorem tenTo_le_estimate {n : Nat} (h : n ≠ 0) : tenTo (n.log2 * 643 / 2136) ≤ n :=
  Nat.le_trans (tenTo_le_twoTo (by decide) (by decide +kernel) n.log2) (Nat.log2_self_le h)

/-- A number does not fit in fewer digits than it has. -/
theorem tenTo_le {n j : Nat} (hj : 0 < j) (h : j < digitCount n) : tenTo j ≤ n := by
  by_cases hn : n = 0
  · subst hn
    exact absurd (Nat.lt_of_lt_of_le h (by decide : digitCount 0 ≤ 1)) (Nat.not_lt.mpr hj)
  · by_cases hk : j ≤ n.log2 * 643 / 2136
    · exact Nat.le_trans (Nat.pow_le_pow_right (by decide) hk) (tenTo_le_estimate hn)
    · exact tenTo_le_of_lt_countFrom (by omega) h

/-! ### The digits -/

/-- The last `count` digits of a number, zeros at the front included, found one by one. -/
def lastDigits : (count : Nat) → Nat → List Char
  | 0, _ => []
  | count + 1, n => lastDigits count (n / 10) ++ [Nat.digitChar (n % 10)]

@[simp] theorem length_lastDigits (count n : Nat) : (lastDigits count n).length = count := by
  induction count generalizing n with
  | zero => rfl
  | succ count ih => simp [lastDigits, ih]

theorem lastDigits_add (j k n : Nat) :
    lastDigits (j + k) n = lastDigits j (n / tenTo k) ++ lastDigits k n := by
  induction k generalizing n with
  | zero => simp [lastDigits, tenTo]
  | succ k ih =>
    rw [← Nat.add_assoc, lastDigits, ih, lastDigits, Nat.div_div_eq_div_mul, tenTo_succ,
      Nat.mul_comm 10, List.append_assoc]

theorem lastDigits_mod (k n : Nat) : lastDigits k (n % tenTo k) = lastDigits k n := by
  induction k generalizing n with
  | zero => rfl
  | succ k ih =>
    rw [lastDigits, lastDigits, ← ih (n / 10), tenTo_succ, Nat.mul_comm, Nat.mod_mul_right_div_self,
      Nat.mod_mul_right_mod]

/-- The last `2 ^ k` digits of a number, zeros at the front included, before what follows. -/
def digitsBefore : (k : Nat) → Nat → List Char → List Char
  | 0, n, rest => Nat.digitChar (n % 10) :: rest
  | k + 1, n, rest =>
    let middle := tenTo (Nat.pow 2 k)
    digitsBefore k (n / middle) (digitsBefore k (n % middle) rest)

theorem digitsBefore_eq (k n : Nat) (rest : List Char) :
    digitsBefore k n rest = lastDigits (Nat.pow 2 k) n ++ rest := by
  induction k generalizing n rest with
  | zero => rfl
  | succ k ih =>
    rw [digitsBefore, ih, ih, ← List.append_assoc, lastDigits_mod]
    congr 1
    rw [← lastDigits_add]
    exact congrArg (lastDigits · n) (Nat.mul_two _).symm

/-- The digits of a natural number, without leading zeros. -/
def decimalDigits (n : Nat) : List Char :=
  let count := digitCount n
  let k := count.log2 + 1
  (digitsBefore k n []).drop (Nat.pow 2 k - count)

/-- The digits are those that division by ten gives one by one. -/
theorem decimalDigits_eq (n : Nat) : decimalDigits n = lastDigits (digitCount n) n := by
  have enough : digitCount n < Nat.pow 2 ((digitCount n).log2 + 1) := Nat.lt_log2_self
  obtain ⟨more, h⟩ := Nat.exists_eq_add_of_le' (Nat.le_of_lt enough)
  rw [decimalDigits, digitsBefore_eq, List.append_nil, h, lastDigits_add, Nat.add_sub_cancel]
  exact List.drop_left' (length_lastDigits _ _)

@[simp] theorem length_decimalDigits (n : Nat) : (decimalDigits n).length = digitCount n := by
  rw [decimalDigits_eq, length_lastDigits]

end Parlance.Number
