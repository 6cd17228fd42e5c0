/-
Decimal digits.

Unicode gives the general category `Nd` to the digits of some sixty scripts.  They come
in runs of ten consecutive characters, from the zero to the nine of a script, so the
list of the zeros is the whole table: a digit's value is its distance from the zero at
or just below it.

The number that digits write is found by halves, the digits in front of the middle first,
and `ofDigits_eq_foldl` says that it is the one found digit by digit.
-/
import Parlance.Number.Digits

namespace Parlance.Text

open Parlance.Number (tenTo tenTo_succ)

/-- The digit zero of every script, in ascending order. -/
def digitZeros : List Nat :=
  [0x30, 0x660, 0x6f0, 0x7c0, 0x966, 0x9e6, 0xa66, 0xae6, 0xb66,
   0xbe6, 0xc66, 0xce6, 0xd66, 0xde6, 0xe50, 0xed0, 0xf20, 0x1040,
   0x1090, 0x17e0, 0x1810, 0x1946, 0x19d0, 0x1a80, 0x1a90, 0x1b50, 0x1bb0,
   0x1c40, 0x1c50, 0xa620, 0xa8d0, 0xa900, 0xa9d0, 0xa9f0, 0xaa50, 0xabf0,
   0xff10, 0x104a0, 0x10d30, 0x11066, 0x110f0, 0x11136, 0x111d0, 0x112f0, 0x11450,
   0x114d0, 0x11650, 0x116c0, 0x11730, 0x118e0, 0x11950, 0x11c50, 0x11d50, 0x11da0,
   0x16a60, 0x16ac0, 0x16b50, 0x1d7ce, 0x1d7d8, 0x1d7e2, 0x1d7ec, 0x1d7f6, 0x1e140,
   0x1e2f0, 0x1e950, 0x1fbf0]

/-- The value of a decimal digit of any script. -/
def digit? (c : Char) : Option Nat :=
  (digitZeros.find? fun z => z ≤ c.toNat && c.toNat ≤ z + 9).map (c.toNat - ·)

example : digitZeros.length = 66 := rfl

theorem digit?_lt {c : Char} {d : Nat} (h : digit? c = some d) : d < 10 := by
  obtain ⟨z, hz, rfl⟩ := Option.map_eq_some_iff.mp h
  have := List.find?_some hz
  simp only [Bool.and_eq_true, decide_eq_true_eq] at this
  omega

/-! ### The number that digits write -/

/-- The number that digits write after a number that is written already, digit by digit. -/
def continued (n : Nat) (ds : List Nat) : Nat :=
  ds.foldl (fun n d => 10 * n + d) n

theorem continued_append (n : Nat) (as bs : List Nat) :
    continued n (as ++ bs) = continued (continued n as) bs :=
  List.foldl_append

theorem continued_eq (n : Nat) (ds : List Nat) :
    continued n ds = n * tenTo ds.length + continued 0 ds := by
  induction ds generalizing n with
  | nil => simp [continued, tenTo]
  | cons d ds ih =>
    have h := ih (10 * n + d)
    have h0 := ih (10 * 0 + d)
    simp only [continued, List.foldl_cons, List.length_cons, tenTo_succ] at h h0 ⊢
    rw [h, h0, Nat.add_mul, Nat.add_mul, Nat.mul_zero, Nat.zero_mul, Nat.zero_add, Nat.add_assoc,
      Nat.mul_comm 10 n, Nat.mul_assoc, Nat.mul_comm 10]

/-- The number that the first `2 ^ k` digits write, and the digits after them. -/
def frontNumber : (k : Nat) → List Nat → Nat × List Nat
  | 0, [] => (0, [])
  | 0, d :: ds => (d, ds)
  | k + 1, ds =>
    let (high, ds) := frontNumber k ds
    let (low, ds) := frontNumber k ds
    (high * tenTo (Nat.pow 2 k) + low, ds)

theorem frontNumber_append {k : Nat} {front : List Nat} (h : front.length = Nat.pow 2 k)
    (rest : List Nat) : frontNumber k (front ++ rest) = (continued 0 front, rest) := by
  induction k generalizing front rest with
  | zero =>
    match front, h with
    | [d], _ => simp [frontNumber, continued]
  | succ k ih =>
    have hk : front.length = Nat.pow 2 k + Nat.pow 2 k := h.trans (Nat.mul_two _)
    have hf : (front.take (Nat.pow 2 k)).length = Nat.pow 2 k := by
      rw [List.length_take]; omega
    have hr : (front.drop (Nat.pow 2 k)).length = Nat.pow 2 k := by
      rw [List.length_drop]; omega
    obtain ⟨high, low, rfl, hhigh, hlow⟩ :
        ∃ high low, front = high ++ low ∧ high.length = Nat.pow 2 k ∧ low.length = Nat.pow 2 k :=
      ⟨_, _, (List.take_append_drop (Nat.pow 2 k) front).symm, hf, hr⟩
    rw [List.append_assoc, frontNumber, ih hhigh]
    simp only [ih hlow]
    rw [continued_append, continued_eq (continued 0 high), hlow]

/-- The number that a list of digits writes, most significant first. -/
def ofDigits (ds : List Nat) : Nat :=
  let k := ds.length.log2 + 1
  (frontNumber k (List.replicate (Nat.pow 2 k - ds.length) 0 ++ ds)).1

theorem continued_zeros (count : Nat) : continued 0 (List.replicate count 0) = 0 := by
  induction count with
  | zero => rfl
  | succ count ih => simpa [continued, List.replicate_succ] using ih

theorem ofDigits_eq_foldl (ds : List Nat) : ofDigits ds = ds.foldl (fun n d => 10 * n + d) 0 := by
  have enough : ds.length < Nat.pow 2 (ds.length.log2 + 1) := Nat.lt_log2_self
  have whole : (List.replicate (Nat.pow 2 (ds.length.log2 + 1) - ds.length) 0 ++ ds).length
      = Nat.pow 2 (ds.length.log2 + 1) := by
    rw [List.length_append, List.length_replicate]; omega
  have := frontNumber_append whole []
  rw [List.append_nil] at this
  rw [ofDigits, this, continued_append, continued_zeros]
  rfl

end Parlance.Text
