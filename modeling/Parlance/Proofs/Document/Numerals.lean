/-
Numerals are read as the numbers they show.

A number is shown by its decimal digits, and a decimal by its digits around a point and the
power of ten that they need.  Reading takes such a text apart at the same places, so that the
digits, and with them the number, come back as they were; of a decimal so do its sign, also that
of a zero, and its scale.

Whatever reading has given can be shown: an integer that was read has no more digits than a
text may hold, and a decimal that was read keeps the bounds on exponents.
-/
import Parlance.Decimal.Numeral
import Mathlib.Tactic.Common

namespace Parlance

open Parlance.Number (tenTo decimalDigits lastDigits digitCount maxDigits)
open Parlance.Text (digit? ofDigits continued isSpace isBlank trim)

/-! ### Digits -/

theorem digit?_digitChar {d : Nat} (h : d < 10) : digit? (Nat.digitChar d) = some d := by
  have all : ∀ d : Fin 10, digit? (Nat.digitChar d) = some d.val := by decide +kernel
  exact all ⟨d, h⟩

/-- The digits that show a number. -/
structure Shows (ds : List Nat) (n : Nat) : Prop where
  text : decimalDigits n = ds.map Nat.digitChar
  small : ∀ d ∈ ds, d < 10
  length : ds.length = digitCount n
  value : ofDigits ds = n

theorem lastDigits_shown (count n : Nat) : ∃ ds, lastDigits count n = ds.map Nat.digitChar ∧
    (∀ d ∈ ds, d < 10) ∧ ds.length = count ∧ continued 0 ds = n % tenTo count := by
  induction count generalizing n with
  | zero => exact ⟨[], rfl, nofun, rfl, (Nat.mod_one n).symm⟩
  | succ count ih =>
    obtain ⟨ds, htext, hsmall, hlength, hvalue⟩ := ih (n / 10)
    refine ⟨ds ++ [n % 10], by simp [lastDigits, htext], ?_, by simp [hlength], ?_⟩
    · intro d hd
      rcases List.mem_append.mp hd with hd | hd
      · exact hsmall d hd
      · cases List.mem_singleton.mp hd
        exact Nat.mod_lt n (by decide)
    · rw [Text.continued_append, hvalue, Number.tenTo_succ, Nat.mul_comm, Nat.mod_mul,
        Nat.add_comm]
      rfl

/-- Every number is shown by digits. -/
theorem exists_shows (n : Nat) : ∃ ds, Shows ds n := by
  obtain ⟨ds, htext, hsmall, hlength, hvalue⟩ := lastDigits_shown (digitCount n) n
  refine ⟨ds, by rw [Number.decimalDigits_eq, htext], hsmall, hlength, ?_⟩
  rw [Text.ofDigits_eq_foldl]
  exact hvalue.trans (Nat.mod_eq_of_lt (Number.lt_tenTo_digitCount n))

theorem Shows.ne_nil {ds : List Nat} {n : Nat} (h : Shows ds n) : ds ≠ [] := by
  rintro rfl
  exact absurd h.length (Nat.ne_of_lt (Number.digitCount_pos n))

theorem continued_lt {n : Nat} {ds : List Nat} (small : ∀ d ∈ ds, d < 10) :
    continued n ds < (n + 1) * tenTo ds.length := by
  induction ds generalizing n with
  | nil => simp [continued, tenTo]
  | cons d ds ih =>
    have hd := small d List.mem_cons_self
    calc continued n (d :: ds)
        = continued (10 * n + d) ds := rfl
      _ < (10 * n + d + 1) * tenTo ds.length :=
        ih fun d' hd' => small d' (List.mem_cons_of_mem _ hd')
      _ ≤ ((n + 1) * 10) * tenTo ds.length := Nat.mul_le_mul_right _ (by omega)
      _ = (n + 1) * tenTo (ds.length + 1) := by
        rw [Number.tenTo_succ, Nat.mul_assoc, Nat.mul_comm 10]

/-- As many digits suffice as the number was written with. -/
theorem digitCount_ofDigits_le {ds : List Nat} (small : ∀ d ∈ ds, d < 10) {k : Nat} (hk : 0 < k)
    (h : ds.length ≤ k) : digitCount (ofDigits ds) ≤ k := by
  by_contra hlt
  have large := Number.tenTo_le hk (Nat.lt_of_not_le hlt)
  have few : ofDigits ds < tenTo ds.length := by
    rw [Text.ofDigits_eq_foldl]
    simpa [continued] using continued_lt (n := 0) small
  exact Nat.not_lt.mpr large (Nat.lt_of_lt_of_le few (Nat.pow_le_pow_right (by decide) h))

/-! ### Characters of a numeral

No character of a numeral is trimmed or passed over.
-/

/-- A character that a numeral is made of. -/
def IsFigure (c : Char) : Prop :=
  isBlank c = false ∧ c ≠ '_'

instance (c : Char) : Decidable (IsFigure c) := by
  unfold IsFigure; infer_instance

theorem isFigure_digitChar {d : Nat} (h : d < 10) : IsFigure (Nat.digitChar d) := by
  have all : ∀ d : Fin 10, IsFigure (Nat.digitChar d) := by decide +kernel
  exact all ⟨d, h⟩

theorem isFigure_of_mem_digits {ds : List Nat} (small : ∀ d ∈ ds, d < 10) {c : Char}
    (h : c ∈ ds.map Nat.digitChar) : IsFigure c := by
  obtain ⟨d, hd, rfl⟩ := List.mem_map.mp h
  exact isFigure_digitChar (small d hd)

theorem dropWhile_eq_self {p : Char → Bool} {cs : List Char} (h : ∀ c ∈ cs, p c = false) :
    cs.dropWhile p = cs := by
  cases cs with
  | nil => rfl
  | cons c cs => exact List.dropWhile_cons_of_neg (by simp [h c List.mem_cons_self])

theorem trim_eq_self {p : Char → Bool} {cs : List Char} (h : ∀ c ∈ cs, p c = false) :
    trim p cs = cs := by
  rw [trim, dropWhile_eq_self h, dropWhile_eq_self fun c hc => h c (List.mem_reverse.mp hc),
    List.reverse_reverse]

/-! ### Integers -/

theorem numeralDigits?_map {ds : List Nat} (small : ∀ d ∈ ds, d < 10) (hne : ds ≠ []) :
    Number.numeralDigits? (ds.map Nat.digitChar) = some ds := by
  induction ds with
  | nil => exact absurd rfl hne
  | cons d ds ih =>
    have hd := digit?_digitChar (small d List.mem_cons_self)
    cases ds with
    | nil => simp [Number.numeralDigits?, hd]
    | cons d' ds =>
      have ih := ih (fun e he => small e (List.mem_cons_of_mem _ he)) (List.cons_ne_nil _ _)
      have hne : Nat.digitChar d' ≠ '_' :=
        (isFigure_digitChar (small d' (List.mem_cons_of_mem _ List.mem_cons_self))).2
      rw [List.map_cons, List.map_cons, Number.numeralDigits?, hd, ← List.map_cons, ih]
      · rfl
      · exact nofun
      · rintro _ h
        exact hne (List.cons.inj h).1

theorem natural?_decimalDigits {n : Nat} (h : digitCount n ≤ maxDigits) :
    Number.natural? (decimalDigits n) = some n := by
  obtain ⟨ds, shows⟩ := exists_shows n
  simp [Number.natural?, shows.text, numeralDigits?_map shows.small shows.ne_nil, shows.length, h,
    shows.value]

theorem isSpace_of_figure {c : Char} (h : IsFigure c) : isSpace c = false := by
  have := h.1
  simp only [isBlank, Bool.or_eq_false_iff] at this
  exact this.1

theorem isFigure_of_mem_integerText {n : Int} {c : Char} (h : c ∈ Number.integerText n) :
    IsFigure c := by
  obtain ⟨ds, shows⟩ := exists_shows n.natAbs
  rw [Number.integerText, shows.text] at h
  split at h
  · rcases List.mem_cons.mp h with rfl | h
    · decide
    · exact isFigure_of_mem_digits shows.small h
  · exact isFigure_of_mem_digits shows.small h

/-- A digit is no sign. -/
theorem digitChar_ne_sign {d : Nat} (h : d < 10) :
    Nat.digitChar d ≠ '-' ∧ Nat.digitChar d ≠ '+' := by
  have all : ∀ d : Fin 10, Nat.digitChar d ≠ '-' ∧ Nat.digitChar d ≠ '+' := by decide +kernel
  exact all ⟨d, h⟩

theorem Shows.head_ne {ds : List Nat} {n : Nat} (h : Shows ds n) {c : Char} {cs : List Char}
    (hcs : ds.map Nat.digitChar = c :: cs) : c ≠ '-' ∧ c ≠ '+' := by
  obtain ⟨d, hd, rfl⟩ := List.mem_map.mp (hcs ▸ List.mem_cons_self)
  exact digitChar_ne_sign (h.small d hd)

/-- **An integer is read from its text.** -/
theorem integer?_of_text? {n : Int} {s : String} (h : Number.text? n = some s) :
    Number.integer? s = some n := by
  unfold Number.text? at h
  split at h
  case isFalse => cases h
  next short =>
  cases h
  unfold Number.integer?
  rw [String.toList_ofList,
    trim_eq_self fun c hc => isSpace_of_figure (isFigure_of_mem_integerText hc)]
  unfold Number.integerText
  by_cases hn : n < 0
  · rw [if_pos hn]
    simp only [natural?_decimalDigits short]
    exact congrArg some (Int.ofNat_natAbs_of_nonpos (Int.le_of_lt hn) ▸ Int.neg_neg n)
  · rw [if_neg hn]
    obtain ⟨ds, shows⟩ := exists_shows n.natAbs
    split
    · next heq => exact absurd rfl (shows.head_ne (shows.text ▸ heq)).1
    · next heq => exact absurd rfl (shows.head_ne (shows.text ▸ heq)).2
    · simp only [natural?_decimalDigits short, Option.map_some, Int.ofNat_eq_natCast]
      exact congrArg some (by omega)

theorem numeralDigits?_small {cs : List Char} {ds : List Nat}
    (h : Number.numeralDigits? cs = some ds) : ∀ d ∈ ds, d < 10 := by
  have cons {c : Char} {ds : Option (List Nat)} {all : List Nat}
      (hds : ∀ rest, ds = some rest → ∀ d ∈ rest, d < 10)
      (h : (digit? c).bind (fun d => ds.bind fun rest => some (d :: rest)) = some all) :
      ∀ d ∈ all, d < 10 := by
    obtain ⟨d, hd, h⟩ := Option.bind_eq_some_iff.mp h
    obtain ⟨rest, hrest, ⟨⟩⟩ := Option.bind_eq_some_iff.mp h
    exact List.forall_mem_cons.mpr ⟨Text.digit?_lt hd, hds rest hrest⟩
  induction cs using Number.numeralDigits?.induct generalizing ds with
  | case1 => cases h
  | case2 c =>
    obtain ⟨d, hd, rfl⟩ := Option.map_eq_some_iff.mp h
    exact List.forall_mem_singleton.mpr (Text.digit?_lt hd)
  | case3 c rest ih =>
    exact cons (fun _ => ih) h
  | case4 c rest hnil hne ih =>
    rw [Number.numeralDigits?] at h
    · exact cons (fun _ => ih) h
    · exact hnil
    · exact hne

theorem digitCount_of_natural? {cs : List Char} {n : Nat} (h : Number.natural? cs = some n) :
    digitCount n ≤ maxDigits := by
  simp only [Number.natural?, Option.bind_eq_bind, Option.bind_eq_some_iff] at h
  obtain ⟨ds, hds, h⟩ := h
  split at h
  · next short =>
    cases h
    exact digitCount_ofDigits_le (numeralDigits?_small hds) (by decide) short
  · cases h

/-- An integer that was read has a text. -/
theorem text?_of_integer? {n : Int} {s : String} (h : Number.integer? s = some n) :
    ∃ t, Number.text? n = some t := by
  have short : digitCount n.natAbs ≤ maxDigits := by
    unfold Number.integer? at h
    split at h
    · obtain ⟨i, hi, rfl⟩ := Option.map_eq_some_iff.mp h
      obtain ⟨k, hk, heq⟩ := Option.bind_eq_some_iff.mp hi
      cases heq
      simpa using digitCount_of_natural? hk
    · obtain ⟨k, hk, rfl⟩ := Option.map_eq_some_iff.mp h
      exact digitCount_of_natural? hk
    · obtain ⟨k, hk, rfl⟩ := Option.map_eq_some_iff.mp h
      exact digitCount_of_natural? hk
  exact ⟨_, if_pos short⟩

/-! ### Decimals -/

namespace Decimal

/-- A number never leads to digits unless the text goes on with one. -/
theorem spanDigits_map {ds : List Nat} (small : ∀ d ∈ ds, d < 10) (rest : List Char)
    (stops : ∀ c ∈ rest.head?, digit? c = none) :
    spanDigits (ds.map Nat.digitChar ++ rest) = (ds, rest) := by
  induction ds with
  | nil =>
    cases rest with
    | nil => rfl
    | cons c rest => simp [spanDigits, stops c rfl]
  | cons d ds ih =>
    have ih := ih fun e he => small e (List.mem_cons_of_mem _ he)
    simp [spanDigits, digit?_digitChar (small d List.mem_cons_self), ih]

/-- The digits after a point, and no point if there are none. -/
def fractionText : List Nat → List Char
  | [] => []
  | d :: ds => '.' :: (d :: ds).map Nat.digitChar

/-- The power of ten at the end, if there is one. -/
def powerText : Option Int → List Char
  | none => []
  | some e => 'E' :: exponentText e

/-- A numeral, by its parts. -/
structure Numeral where
  negative : Bool
  whole : List Nat
  fraction : List Nat
  power : Option Int

namespace Numeral

/-- The numeral as it is written. -/
def chars (n : Numeral) : List Char :=
  (if n.negative then ['-'] else []) ++ (n.whole.map Nat.digitChar
    ++ (fractionText n.fraction ++ powerText n.power))

/-- The decimal that the parts make. -/
def decimal (n : Numeral) : Decimal :=
  ⟨n.negative, ofDigits (n.whole ++ n.fraction), n.power.getD 0 - n.fraction.length⟩

/-- The parts hold digits, one at least before the point. -/
structure Proper (n : Numeral) : Prop where
  whole : ∀ d ∈ n.whole, d < 10
  fraction : ∀ d ∈ n.fraction, d < 10
  nonempty : n.whole ≠ []

variable {n : Numeral}

theorem power?_exponentText (e : Int) : power? ('E' :: exponentText e) = some e := by
  obtain ⟨ds, shows⟩ := exists_shows e.natAbs
  have span : spanDigits (ds.map Nat.digitChar) = (ds, []) := by
    simpa using spanDigits_map shows.small [] nofun
  obtain ⟨d, rest, rfl⟩ := List.exists_cons_of_ne_nil shows.ne_nil
  have sign : spanSign (exponentText e) = (decide (e < 0), (d :: rest).map Nat.digitChar) := by
    rw [exponentText, shows.text]
    by_cases he : e < 0 <;> simp [he, spanSign]
  simp only [power?, or_true, if_true, sign, span, shows.value]
  refine congrArg some ?_
  by_cases he : e < 0
  · simp only [he, decide_true, if_true]
    omega
  · simp only [he, decide_false, Bool.false_eq_true, if_false]
    omega

theorem power?_powerText (p : Option Int) : power? (powerText p) = some (p.getD 0) := by
  cases p with
  | none => rfl
  | some e => exact power?_exponentText e

theorem digit?_powerText {p : Option Int} : ∀ c ∈ (powerText p).head?, digit? c = none := by
  cases p with
  | none => exact nofun
  | some e =>
    rintro _ ⟨⟩
    decide +kernel

theorem Proper.spanFraction (h : n.Proper) :
    spanFraction (fractionText n.fraction ++ powerText n.power)
      = (n.fraction, powerText n.power) := by
  have hf := h.fraction
  cases hn : n.fraction with
  | nil =>
    cases n.power <;> rfl
  | cons d ds =>
    rw [hn] at hf
    exact spanDigits_map hf _ digit?_powerText

/-- No digit follows the digits before the point. -/
theorem digit?_after : ∀ c ∈ (fractionText n.fraction ++ powerText n.power).head?,
    digit? c = none := by
  cases n.fraction with
  | nil => exact digit?_powerText
  | cons d ds =>
    rintro _ ⟨⟩
    decide +kernel

theorem isFigure_exponentText {e : Int} {c : Char} (hc : c ∈ exponentText e) : IsFigure c := by
  obtain ⟨ds, shows⟩ := exists_shows e.natAbs
  rw [exponentText, shows.text] at hc
  rcases List.mem_cons.mp hc with rfl | hc
  · split <;> decide
  · exact isFigure_of_mem_digits shows.small hc

theorem Proper.isFigure (h : n.Proper) {c : Char} (hc : c ∈ n.chars) : IsFigure c := by
  simp only [chars, List.mem_append] at hc
  rcases hc with hc | hc | hc | hc
  · split at hc
    · cases List.mem_singleton.mp hc
      decide
    · cases hc
  · exact isFigure_of_mem_digits h.whole hc
  · have hf := h.fraction
    cases hn : n.fraction with
    | nil =>
      rw [hn] at hc
      cases hc
    | cons d ds =>
      rw [hn] at hc hf
      rcases List.mem_cons.mp hc with rfl | hc
      · decide
      · exact isFigure_of_mem_digits hf hc
  · cases hp : n.power with
    | none =>
      rw [hp] at hc
      cases hc
    | some e =>
      rw [hp] at hc
      rcases List.mem_cons.mp hc with rfl | hc
      · decide
      · exact isFigure_exponentText hc

theorem Proper.spanSign (h : n.Proper) : spanSign n.chars = (n.negative, n.whole.map Nat.digitChar
    ++ (fractionText n.fraction ++ powerText n.power)) := by
  rw [chars]
  cases n.negative with
  | true => rfl
  | false =>
    obtain ⟨d, ds, hw⟩ := List.exists_cons_of_ne_nil h.nonempty
    have hd : d < 10 := h.whole d (hw ▸ List.mem_cons_self)
    rw [hw]
    unfold Decimal.spanSign
    split
    · next heq => exact absurd (List.cons.inj heq).1 (digitChar_ne_sign hd).1
    · next heq => exact absurd (List.cons.inj heq).1 (digitChar_ne_sign hd).2
    · rfl

/-- A numeral is read as the decimal that its parts make. -/
theorem Proper.ofText? (h : n.Proper) (inRange : n.decimal.InRange) :
    ofText? (String.ofList n.chars) = some n.decimal := by
  have kept : (trim isBlank n.chars).filter (· ≠ '_') = n.chars := by
    rw [trim_eq_self fun c hc => (h.isFigure hc).1]
    exact List.filter_eq_self.mpr fun c hc => by simpa using (h.isFigure hc).2
  unfold Decimal.ofText?
  rw [String.toList_ofList, kept]
  have whole : n.whole.isEmpty = false := by simp [h.nonempty]
  simp only [h.spanSign, spanDigits_map h.whole _ digit?_after, h.spanFraction, power?_powerText,
    whole, Bool.false_and, Bool.false_eq_true, if_false]
  exact if_pos inRange

end Numeral

theorem fractionText_of_ne_nil {ds : List Nat} (h : ds ≠ []) :
    fractionText ds = '.' :: ds.map Nat.digitChar := by
  obtain ⟨d, rest, rfl⟩ := List.exists_cons_of_ne_nil h
  rfl

theorem ofDigits_zeros (count : Nat) (ds : List Nat) :
    ofDigits (List.replicate count 0 ++ ds) = ofDigits ds := by
  rw [Text.ofDigits_eq_foldl, Text.ofDigits_eq_foldl, List.foldl_append]
  exact congrArg (fun n => continued n ds) (Text.continued_zeros count)

/-- Digits with the point in place: those before it, and as many as there are places after it. -/
theorem exists_positional {ds : List Nat} (small : ∀ d ∈ ds, d < 10) (hne : ds ≠ [])
    (places : Nat) : ∃ whole fraction : List Nat,
      positional (ds.map Nat.digitChar) places = whole.map Nat.digitChar ++ fractionText fraction ∧
      (∀ d ∈ whole ++ fraction, d < 10) ∧ whole ≠ [] ∧ fraction.length = places ∧
      ofDigits (whole ++ fraction) = ofDigits ds := by
  unfold positional
  by_cases hp : places = 0
  · subst hp
    exact ⟨ds, [], by simp [fractionText], by simpa using small, hne, rfl, by simp⟩
  · let padded := List.replicate (places + 1 - ds.length) 0 ++ ds
    have long : places < padded.length := by
      simp only [padded, List.length_append, List.length_replicate]
      omega
    have padding : List.replicate (places + 1 - ds.length) '0' ++ ds.map Nat.digitChar
        = padded.map Nat.digitChar := by
      simp only [padded, List.map_append, List.map_replicate]
      rfl
    refine ⟨padded.take (padded.length - places), padded.drop (padded.length - places),
      ?_, ?_, ?_, ?_, ?_⟩
    · rw [if_neg hp, fractionText_of_ne_nil]
      · simp only [List.length_map, padding, List.map_take, List.map_drop]
      · exact List.ne_nil_of_length_pos (by rw [List.length_drop]; omega)
    · rw [List.take_append_drop]
      intro d hd
      rcases List.mem_append.mp hd with hd | hd
      · rw [List.eq_of_mem_replicate hd]
        decide
      · exact small d hd
    · exact List.ne_nil_of_length_pos (by rw [List.length_take]; omega)
    · rw [List.length_drop]
      omega
    · rw [List.take_append_drop, ofDigits_zeros]

/-- Digits with the point after the first, and a power of ten. -/
theorem exists_scientific {ds : List Nat} (small : ∀ d ∈ ds, d < 10) (hne : ds ≠ []) (e : Int) :
    ∃ (first : Nat) (fraction : List Nat),
      scientific (ds.map Nat.digitChar) e
        = [first].map Nat.digitChar ++ (fractionText fraction ++ powerText (some e)) ∧
      ds = first :: fraction := by
  match ds with
  | [] => exact absurd rfl hne
  | [d] => exact ⟨d, [], rfl, rfl⟩
  | d :: d' :: rest => exact ⟨d, d' :: rest, by simp [scientific, fractionText, powerText], rfl⟩

/-- A decimal is shown as a numeral whose parts make it. -/
theorem exists_numeral (d : Decimal) :
    ∃ n : Numeral, n.Proper ∧ d.text = String.ofList n.chars ∧ n.decimal = d := by
  obtain ⟨ds, shows⟩ := exists_shows d.coefficient
  have sign (body : List Char) : (if d.negative then '-' :: body else body)
      = (if d.negative then ['-'] else []) ++ body := by
    cases d.negative <;> rfl
  unfold text
  simp only [shows.text]
  rw [sign]
  -- The point stands in place in the one form, and after the first digit in the other.
  by_cases h : d.exponent ≤ 0 ∧ -6 ≤ d.adjusted
  · obtain ⟨whole, fraction, htext, small, nonempty, hlength, hvalue⟩ :=
      exists_positional shows.small shows.ne_nil d.exponent.natAbs
    refine ⟨⟨d.negative, whole, fraction, none⟩, ⟨?_, ?_, nonempty⟩, ?_, ?_⟩
    · exact fun e he => small e (List.mem_append_left _ he)
    · exact fun e he => small e (List.mem_append_right _ he)
    · rw [if_pos h, htext]
      simp [Numeral.chars, powerText]
    · have scale : (0 : Int) - fraction.length = d.exponent := by
        rw [hlength]
        omega
      simp only [Numeral.decimal, hvalue, shows.value, Option.getD_none, scale]
  · obtain ⟨first, fraction, htext, hds⟩ :=
      exists_scientific shows.small shows.ne_nil d.adjusted
    have hsmall := hds ▸ shows.small
    refine ⟨⟨d.negative, [first], fraction, some d.adjusted⟩, ⟨?_, ?_, List.cons_ne_nil _ _⟩,
      ?_, ?_⟩
    · exact List.forall_mem_singleton.mpr (hsmall first List.mem_cons_self)
    · exact fun e he => hsmall e (List.mem_cons_of_mem _ he)
    · rw [if_neg h, htext]
      rfl
    · have hlength := shows.length
      have hvalue := shows.value
      rw [hds] at hlength hvalue
      have scale : d.adjusted - fraction.length = d.exponent := by
        rw [adjusted, ← hlength, List.length_cons]
        omega
      simp only [Numeral.decimal, List.singleton_append, hvalue, Option.getD_some, scale]

/-- **A decimal is read from its text**, with its sign and at its scale. -/
theorem ofText?_text {d : Decimal} (h : d.InRange) : ofText? d.text = some d := by
  obtain ⟨n, proper, htext, rfl⟩ := exists_numeral d
  rw [htext, proper.ofText? h]

/-- A decimal that was read keeps the bounds. -/
theorem inRange_of_ofText? {s : String} {d : Decimal} (h : ofText? s = some d) : d.InRange := by
  unfold ofText? at h
  simp only [Option.bind_eq_bind] at h
  split at h
  · cases h
  · obtain ⟨power, -, h⟩ := Option.bind_eq_some_iff.mp h
    split at h
    · cases h
      assumption
    · cases h

end Decimal

end Parlance
