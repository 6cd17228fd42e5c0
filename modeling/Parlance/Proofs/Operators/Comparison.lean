/-
Comparisons obey the laws of equality and of order.

Equality is defined on all values and asks for the same content: the items of an iterable, the
identity of an object, the number and the scale of a decimal.  Objects are made one after the other,
each with an identity that no earlier one has, so among the objects that a host has made by some
time the identity tells everything.

The order is defined inside of four kinds.  To each of them belongs a linear order and a key, a
member of it for every value, and the values are compared as their keys are: Integers as integers,
Decimals as rationals, Characters by their numbers, and Strings by the numbers of their code points,
first difference first.  All laws of order come from that.  Where equal keys mean equal values the
order tells when two values are equal; of two decimals it tells it only together with the scales.
-/
import Mathlib.Data.List.Lex
import Parlance.Operator.Evaluation
import Parlance.Proofs.Decimal.Ordering
import Parlance.Proofs.Kinds.Holds
import Parlance.Store.Basic

namespace Parlance

/-! ### Objects -/

/-- By the time of the store the host has made these objects. Whatever else happens takes none of
the identities back. -/
inductive Store.HasMade : Store → List Object → Prop
  | nothing (σ : Store) : HasMade σ []
  | object {σ : Store} {os : List Object} (h : HasMade σ os) (type : Ty) (members : TableId) :
      HasMade (σ.newObject type members).2 ((σ.newObject type members).1 :: os)
  | later {σ τ : Store} {os : List Object} (h : HasMade σ os) (hle : σ.objects ≤ τ.objects) :
      HasMade τ os

namespace Store.HasMade

variable {σ : Store} {os : List Object}

theorem id_lt (h : σ.HasMade os) : ∀ o ∈ os, o.id < σ.objects := by
  induction h with
  | nothing => nofun
  | @object σ os _ type members ih =>
    intro o ho
    have step : (σ.newObject type members).2.objects = σ.objects + 1 := rfl
    rcases List.mem_cons.mp ho with rfl | ho
    · exact step ▸ Nat.lt_succ_self _
    · exact step ▸ Nat.lt_succ_of_lt (ih o ho)
  | later _ hle ih => exact fun o ho => Nat.lt_of_lt_of_le (ih o ho) hle

/-- No two objects have one identity. -/
theorem eq_of_id (h : σ.HasMade os) : ∀ o ∈ os, ∀ p ∈ os, o.id = p.id → o = p := by
  induction h with
  | nothing => nofun
  | @object σ os h type members ih =>
    have fresh {o : Object} (ho : o ∈ os) : o.id ≠ (σ.newObject type members).1.id :=
      Nat.ne_of_lt (h.id_lt o ho)
    intro o ho p hp hid
    rcases List.mem_cons.mp ho with rfl | ho
    · rcases List.mem_cons.mp hp with rfl | hp
      · rfl
      · exact absurd hid.symm (fresh hp)
    · rcases List.mem_cons.mp hp with rfl | hp
      · exact absurd hid (fresh ho)
      · exact ih o ho p hp hid
  | later _ _ ih => exact ih

end Store.HasMade

/-- If the value is an object, it is one of these. -/
def Value.Among (os : List Object) (v : Value) : Prop :=
  ∀ o, v = .object o → o ∈ os

/-- What an order asks of two keys. -/
def Ordered.Between {α : Type} [LinearOrder α] (op : Ordered) (x y : α) : Prop :=
  match op with
  | .less => x < y
  | .lessEqual => x ≤ y
  | .greater => y < x
  | .greaterEqual => y ≤ x

/-! ### Equality -/

namespace Value

/-- The operator, asked of two values, says that it is so. -/
def Related (op : Name) (a b : Value) : Prop :=
  binaryApply op a b = .ok (.boolean true)

/-- The same content. -/
inductive SameContent : Value → Value → Prop
  | nil : SameContent nil nil
  | boolean (b : Bool) : SameContent (boolean b) (boolean b)
  | character (c : CodePoint) : SameContent (character c) (character c)
  | string (t : Text) : SameContent (string t) (string t)
  | integer (n : Int) : SameContent (integer n) (integer n)
  | decimal {x y : Decimal} (value : x.toRat = y.toRat) (scale : x.exponent = y.exponent) :
      SameContent (decimal x) (decimal y)
  | iterable (items : List Int) : SameContent (iterable items) (iterable items)
  | object {o p : Object} (h : o.id = p.id) : SameContent (object o) (object p)

variable {a b c : Value}

theorem same_iff : a.same b = true ↔ SameContent a b := by
  constructor
  · intro h
    cases a <;> cases b <;> simp only [same, beq_iff_eq, Bool.false_eq_true] at h
    case nil.nil => exact .nil
    case boolean.boolean => exact h ▸ .boolean _
    case character.character => exact h ▸ .character _
    case string.string => exact h ▸ .string _
    case integer.integer => exact h ▸ .integer _
    case decimal.decimal =>
      obtain ⟨value, scale⟩ := Decimal.sameAtScale_iff.mp h
      exact .decimal value scale
    case iterable.iterable => exact h ▸ .iterable _
    case object.object => exact .object h
  · intro h
    cases h with
    | decimal value scale => exact Decimal.sameAtScale_iff.mpr ⟨value, scale⟩
    | nil => rfl
    | _ => simp_all [same]

theorem SameContent.refl (a : Value) : SameContent a a := by
  cases a with
  | nil => exact .nil
  | boolean b => exact .boolean b
  | character c => exact .character c
  | string t => exact .string t
  | integer n => exact .integer n
  | decimal d => exact .decimal rfl rfl
  | iterable items => exact .iterable items
  | object o => exact .object rfl

theorem SameContent.symm (h : SameContent a b) : SameContent b a := by
  cases h with
  | decimal value scale => exact .decimal value.symm scale.symm
  | object h => exact .object h.symm
  | _ => exact .refl _

theorem SameContent.trans (h : SameContent a b) (h' : SameContent b c) : SameContent a c := by
  cases h with
  | decimal value scale =>
    cases h' with
    | decimal value' scale' => exact .decimal (value.trans value') (scale.trans scale')
  | object h =>
    cases h' with
    | object h' => exact .object (h.trans h')
  | _ => exact h'

theorem related_equal : Related "==" a b ↔ SameContent a b := by
  have apply : binaryApply "==" a b = .ok (.boolean (a.same b)) := rfl
  rw [Related, apply, ← same_iff]
  simp

/-- What holds of equality on three values. -/
structure EqualityLaws (a b c : Value) : Prop where
  decided : ∃ x, binaryApply "==" a b = .ok (.boolean x) ∧ binaryApply "!=" a b = .ok (.boolean !x)
  refl : Related "==" a a
  symm : Related "==" a b → Related "==" b a
  trans : Related "==" a b → Related "==" b c → Related "==" a c
  /-- Values of different kinds are not equal. -/
  kind : Related "==" a b → a.kind = b.kind
  /-- Objects are equal to themselves alone. -/
  objects : ∀ o p, a = .object o → b = .object p → (Related "==" a b ↔ o = p)
  iterables : ∀ xs ys, a = .iterable xs → b = .iterable ys → (Related "==" a b ↔ xs = ys)

theorem SameContent.eq_object {σ : Store} {os : List Object} (hmade : σ.HasMade os) {o p : Object}
    (ho : o ∈ os) (hp : p ∈ os) (h : SameContent (.object o) (.object p)) : o = p := by
  cases h with
  | object h => exact hmade.eq_of_id o ho p hp h

theorem SameContent.kind {σ : Store} {os : List Object} (hmade : σ.HasMade os) (ha : a.Among os)
    (hb : b.Among os) (h : SameContent a b) : a.kind = b.kind := by
  cases h with
  | object h => rw [SameContent.eq_object hmade (ha _ rfl) (hb _ rfl) (.object h)]
  | _ => rfl

theorem equalityLaws {σ : Store} {os : List Object} (hmade : σ.HasMade os) (ha : a.Among os)
    (hb : b.Among os) (c : Value) : EqualityLaws a b c where
  decided := ⟨a.same b, rfl, rfl⟩
  refl := related_equal.mpr (.refl a)
  symm h := related_equal.mpr (related_equal.mp h).symm
  trans h h' := related_equal.mpr ((related_equal.mp h).trans (related_equal.mp h'))
  kind h := (related_equal.mp h).kind hmade ha hb
  objects o p := by
    rintro rfl rfl
    rw [related_equal]
    constructor
    · exact fun h => h.eq_object hmade (ha o rfl) (hb p rfl)
    · rintro rfl
      exact .refl _
  iterables xs ys := by
    rintro rfl rfl
    rw [related_equal]
    constructor
    · intro h
      cases h
      rfl
    · rintro rfl
      exact .refl _

/-! ### Order -/

/-- The scale of a Decimal; other values have none. -/
def scale? : Value → Option Int
  | decimal d => some d.exponent
  | _ => none

/-- The values of a kind are compared as their keys in a linear order, and those of equal keys are
equal if their scales are. -/
structure Ranked (k : Builtin) {α : Type} [LinearOrder α] (key : Value → α) : Prop where
  compares : ∀ a b : Value, a.builtin? = some k → b.builtin? = some k →
    ∃ o, a.order? b = some o ∧ o.Compares (key a) (key b)
  same : ∀ a b : Value, a.builtin? = some k → b.builtin? = some k →
    (SameContent a b ↔ key a = key b ∧ a.scale? = b.scale?)

section Ranked

variable {k : Builtin} {α : Type} [LinearOrder α] {key : Value → α} (hkey : Ranked k key)
  (ha : a.builtin? = some k) (hb : b.builtin? = some k)

include hkey ha hb

/-- The order has an answer on two values of the kind. -/
theorem Ranked.exists_answer (op : Ordered) :
    ∃ o : Ordering, o.Compares (key a) (key b) ∧
      binaryApply (some (Operator.ordered op).text) a b = .ok (.boolean (op.holds o)) := by
  obtain ⟨o, ho, hcompares⟩ := hkey.compares a b ha hb
  have named : Operator.ofName? (some (Operator.ordered op).text) = some (.ordered op) :=
    Operator.ofText?_text _
  refine ⟨o, hcompares, ?_⟩
  rw [binaryApply, named]
  simp only [Operator.apply, ho]

/-- And the answer is that of the keys. -/
theorem Ranked.related (op : Ordered) :
    Related (some (Operator.ordered op).text) a b ↔ op.Between (key a) (key b) := by
  obtain ⟨o, hcompares, happly⟩ := hkey.exists_answer ha hb op
  have holds : Related (some (Operator.ordered op).text) a b ↔ op.holds o = true := by
    rw [Related, happly]
    simp
  rw [holds]
  cases op with
  | less => simpa [Ordered.holds, Ordered.Between] using hcompares.eq_lt
  | lessEqual => simpa [Ordered.holds, Ordered.Between] using hcompares.ne_gt
  | greater => simpa [Ordered.holds, Ordered.Between] using hcompares.eq_gt
  | greaterEqual => simpa [Ordered.holds, Ordered.Between] using hcompares.ne_lt

end Ranked

/-- The names of the comparisons. -/
def comparisons : List Name :=
  ["==", "!=", "<", "<=", ">", ">="]

/-- What holds of the comparisons of three values of the kind `k`. -/
structure OrderLaws (k : Builtin) (a b c : Value) : Prop where
  decided : ∀ op ∈ comparisons, ∃ x, binaryApply op a b = .ok (.boolean x)
  refl : Related "<=" a a
  trans : Related "<=" a b → Related "<=" b c → Related "<=" a c
  total : Related "<=" a b ∨ Related "<=" b a
  less : Related "<" a b ↔ ¬ Related "<=" b a
  greater : Related ">" a b ↔ Related "<" b a
  greaterEqual : Related ">=" a b ↔ Related "<=" b a
  equal : Related "==" a b → Related "<=" a b ∧ Related "<=" b a
  antisymm : k ≠ .decimal → Related "<=" a b → Related "<=" b a → Related "==" a b
  /-- Of two Decimals the order only tells that they are the same number, and equality asks for the
  same scale as well. -/
  decimals : ∀ x y, a = .decimal x → b = .decimal y →
    (Related "==" a b ↔ (Related "<=" a b ∧ Related "<=" b a) ∧ x.exponent = y.exponent)

theorem scale?_eq_none {k : Builtin} (hk : k ≠ .decimal) (ha : a.builtin? = some k) :
    a.scale? = none := by
  cases a with
  | decimal d =>
    cases ha
    exact absurd rfl hk
  | _ => rfl

theorem Ranked.orderLaws {k : Builtin} {α : Type} [LinearOrder α] {key : Value → α}
    (hkey : Ranked k key) (ha : a.builtin? = some k) (hb : b.builtin? = some k)
    (hc : c.builtin? = some k) : OrderLaws k a b c := by
  have le {a b : Value} (ha : a.builtin? = some k) (hb : b.builtin? = some k) :
      Related "<=" a b ↔ key a ≤ key b := hkey.related ha hb .lessEqual
  have less {a b : Value} (ha : a.builtin? = some k) (hb : b.builtin? = some k) :
      Related "<" a b ↔ key a < key b := hkey.related ha hb .less
  have both : Related "<=" a b ∧ Related "<=" b a ↔ key a = key b := by
    rw [le ha hb, le hb ha, le_antisymm_iff]
  have equal : Related "==" a b ↔
      (Related "<=" a b ∧ Related "<=" b a) ∧ a.scale? = b.scale? := by
    rw [related_equal, hkey.same a b ha hb, both]
  refine ⟨fun op hop => ?_, ?_, ?_, ?_, ?_, ?_, ?_, fun h => (equal.mp h).1, ?_, ?_⟩
  · have ordered (op : Ordered) : ∃ x,
        binaryApply (some (Operator.ordered op).text) a b = .ok (.boolean x) :=
      (hkey.exists_answer ha hb op).imp' (op.holds) fun _ h => h.2
    simp only [comparisons, List.mem_cons, List.not_mem_nil, or_false] at hop
    rcases hop with rfl | rfl | rfl | rfl | rfl | rfl
    · exact ⟨_, rfl⟩
    · exact ⟨_, rfl⟩
    · exact ordered .less
    · exact ordered .lessEqual
    · exact ordered .greater
    · exact ordered .greaterEqual
  · exact (le ha ha).mpr le_rfl
  · rw [le ha hb, le hb hc, le ha hc]
    exact le_trans
  · rw [le ha hb, le hb ha]
    exact le_total _ _
  · rw [less ha hb, le hb ha, not_le]
  · exact (hkey.related ha hb .greater).trans (less hb ha).symm
  · exact (hkey.related ha hb .greaterEqual).trans (le hb ha).symm
  · intro hk h h'
    exact equal.mpr ⟨⟨h, h'⟩, by rw [scale?_eq_none hk ha, scale?_eq_none hk hb]⟩
  · rintro x y rfl rfl
    rw [equal]
    simp [scale?]

/-! ### The four ordered kinds -/

/-- The key of an Integer. -/
def integerKey : Value → ℤ
  | integer n => n
  | _ => 0

/-- The key of a Decimal. -/
def decimalKey : Value → ℚ
  | decimal d => d.toRat
  | _ => 0

/-- The key of a Character. -/
def characterKey : Value → ℕ
  | character c => c.toNat
  | _ => 0

/-- The key of a String. -/
def stringKey : Value → List ℕ
  | string t => t.toList.map CodePoint.toNat
  | _ => []

theorem ranked_integer : Ranked .integer integerKey := by
  refine ⟨fun a b ha hb => ?_, fun a b ha hb => ?_⟩
  · obtain ⟨m, rfl⟩ := eq_integer ha
    obtain ⟨n, rfl⟩ := eq_integer hb
    exact ⟨_, rfl, (compare_iff m n).mp rfl⟩
  · obtain ⟨m, rfl⟩ := eq_integer ha
    obtain ⟨n, rfl⟩ := eq_integer hb
    constructor
    · rintro ⟨⟩
      exact ⟨rfl, rfl⟩
    · rintro ⟨rfl : m = n, -⟩
      exact .integer m

theorem ranked_decimal : Ranked .decimal decimalKey := by
  refine ⟨fun a b ha hb => ?_, fun a b ha hb => ?_⟩
  · obtain ⟨x, rfl⟩ := eq_decimal ha
    obtain ⟨y, rfl⟩ := eq_decimal hb
    exact ⟨_, rfl, Decimal.order_compares x y⟩
  · obtain ⟨x, rfl⟩ := eq_decimal ha
    obtain ⟨y, rfl⟩ := eq_decimal hb
    constructor
    · intro h
      cases h with
      | decimal value scale => exact ⟨value, congrArg some scale⟩
    · rintro ⟨value, scale⟩
      exact .decimal value (Option.some.inj scale)

theorem eq_character {v : Value} (h : v.builtin? = some .character) : ∃ c, v = character c := by
  cases v <;> cases h
  exact ⟨_, rfl⟩

theorem eq_string {v : Value} (h : v.builtin? = some .string) : ∃ t, v = string t := by
  cases v <;> cases h
  exact ⟨_, rfl⟩

theorem ranked_character : Ranked .character characterKey := by
  refine ⟨fun a b ha hb => ?_, fun a b ha hb => ?_⟩
  · obtain ⟨c, rfl⟩ := eq_character ha
    obtain ⟨d, rfl⟩ := eq_character hb
    exact ⟨_, rfl, (compare_iff c.toNat d.toNat).mp rfl⟩
  · obtain ⟨c, rfl⟩ := eq_character ha
    obtain ⟨d, rfl⟩ := eq_character hb
    constructor
    · rintro ⟨⟩
      exact ⟨rfl, rfl⟩
    · rintro ⟨h, -⟩
      exact CodePoint.toNat_injective h ▸ .character c

/-- The first code points that differ decide, and else the end of the shorter text. -/
theorem compareCodePoints_compares (as bs : List CodePoint) :
    (compareCodePoints as bs).Compares (as.map CodePoint.toNat) (bs.map CodePoint.toNat) := by
  induction as generalizing bs with
  | nil =>
    cases bs with
    | nil => exact rfl
    | cons b bs => exact List.nil_lt_cons _ _
  | cons a as ih =>
    cases bs with
    | nil => exact List.nil_lt_cons _ _
    | cons b bs =>
      rw [compareCodePoints]
      cases h : compare a.toNat b.toNat with
      | lt => exact List.Lex.rel (compare_lt_iff_lt.mp h)
      | gt => exact List.Lex.rel (compare_gt_iff_gt.mp h)
      | eq =>
        have head : a.toNat = b.toNat := compare_eq_iff_eq.mp h
        have increasing : StrictMono (List.cons b.toNat) := fun _ _ h => List.Lex.cons h
        rw [List.map_cons, List.map_cons, head]
        exact increasing.compares.mpr (ih bs)

theorem ranked_string : Ranked .string stringKey := by
  refine ⟨fun a b ha hb => ?_, fun a b ha hb => ?_⟩
  · obtain ⟨s, rfl⟩ := eq_string ha
    obtain ⟨t, rfl⟩ := eq_string hb
    exact ⟨_, rfl, compareCodePoints_compares s.toList t.toList⟩
  · obtain ⟨s, rfl⟩ := eq_string ha
    obtain ⟨t, rfl⟩ := eq_string hb
    constructor
    · rintro ⟨⟩
      exact ⟨rfl, rfl⟩
    · rintro ⟨h, -⟩
      have points : s.toList = t.toList :=
        List.map_injective_iff.mpr (fun _ _ => CodePoint.toNat_injective) h
      exact Text.ext_toList points ▸ .string s

theorem orderLaws {k : Builtin} (hk : k.name ∈ Ty.orderedNames) {a b c : Value}
    (ha : a.builtin? = some k) (hb : b.builtin? = some k) (hc : c.builtin? = some k) :
    OrderLaws k a b c := by
  cases k with
  | integer => exact ranked_integer.orderLaws ha hb hc
  | decimal => exact ranked_decimal.orderLaws ha hb hc
  | character => exact ranked_character.orderLaws ha hb hc
  | string => exact ranked_string.orderLaws ha hb hc
  | _ => exact absurd hk (by decide)

/-- **Comparisons obey the laws of equality and of order.** Equality is an equivalence on all values
that there are by some time, inequality its negation, and values of different kinds are never equal.
On the values of each of the ordered types, `<=` is a total preorder, the other orders are what it
says, and two values that it orders both ways are equal, if they are Decimals as long as their
scales are the same. -/
theorem comparison_laws :
    (∀ {σ : Store} {os : List Object}, σ.HasMade os → ∀ a b c : Value, a.Among os → b.Among os →
      EqualityLaws a b c) ∧
    ∀ k : Builtin, k.name ∈ Ty.orderedNames → ∀ a b c : Value, a.builtin? = some k →
      b.builtin? = some k → c.builtin? = some k → OrderLaws k a b c :=
  ⟨fun hmade _ _ c ha hb => equalityLaws hmade ha hb c,
    fun _ hk _ _ _ ha hb hc => orderLaws hk ha hb hc⟩

/-- `1.0` and `1.00` are ordered both ways and are not equal, `0.0` and `-0.0` are, and of two
objects that one type was given for neither equals the other. -/
theorem comparison_laws_scales :
    (let a : Value := .decimal ⟨false, 10, -1⟩
     let b : Value := .decimal ⟨false, 100, -2⟩
     a.builtin? = some .decimal ∧ b.builtin? = some .decimal ∧
       Related "<=" a b ∧ Related "<=" b a ∧ ¬ Related "==" a b) ∧
    Related "==" (.decimal ⟨false, 0, -1⟩) (.decimal ⟨true, 0, -1⟩) ∧
    ∃ σ o p, Store.HasMade σ [p, o] ∧ o.type = p.type ∧ ¬ Related "==" (.object o) (.object p) := by
  refine ⟨?_, ?_, ?_⟩
  · intro a b
    have laws := comparison_laws.2 .decimal (by decide) a b b rfl rfl rfl
    have less : Related "<=" a b := by rfl
    have greater : Related "<=" b a := by rfl
    refine ⟨rfl, rfl, less, greater, fun equal => ?_⟩
    exact absurd ((laws.decimals _ _ rfl rfl).mp equal).2 (by decide)
  · have laws := comparison_laws.2 .decimal (by decide) (.decimal ⟨false, 0, -1⟩)
      (.decimal ⟨true, 0, -1⟩) (.decimal ⟨true, 0, -1⟩) rfl rfl rfl
    exact (laws.decimals _ _ rfl rfl).mpr ⟨⟨rfl, rfl⟩, rfl⟩
  · have first := (Store.HasMade.nothing Store.initial).object Builtin.any.type 0
    have second := first.object Builtin.any.type 0
    refine ⟨_, _, _, second, rfl, fun equal => ?_⟩
    have laws := comparison_laws.1 second (.object (Store.initial.newObject Builtin.any.type 0).1)
      (.object ((Store.initial.newObject Builtin.any.type 0).2.newObject Builtin.any.type 0).1) .nil
      (by rintro o ⟨⟩; simp) (by rintro o ⟨⟩; simp)
    exact absurd ((laws.objects _ _ rfl rfl).mp equal) (by decide)

end Value

end Parlance
