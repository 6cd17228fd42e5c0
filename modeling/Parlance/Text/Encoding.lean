/-
Encodings.

A stream of bytes can write the code points that its encoding has bytes for.  It refuses a
text that holds any other, and then writes nothing of it.  Every encoding has bytes for the
characters of ASCII.  In UTF-8 each character has its bytes, and a surrogate has none; a
stream that is kept in memory needs no bytes, and takes every text.
-/
import Parlance.Text.Basic

namespace Parlance

/-- The code points that a stream can write. -/
structure Encoding where
  encodes : CodePoint → Bool
  ascii (c : Char) : c.toNat < 0x80 → encodes (.char c) = true

namespace Encoding

/-- The encoding that has a place for every code point. -/
def memory : Encoding := ⟨fun _ => true, fun _ _ => rfl⟩

/-- The encoding of every character, and of no surrogate. -/
def utf8 : Encoding where
  encodes
    | .char _ => true
    | .surrogate _ => false
  ascii _ _ := rfl

instance : Inhabited Encoding := ⟨memory⟩

/-- Whether a text can be written. -/
def takes (e : Encoding) (t : Text) : Bool :=
  t.toList.all e.encodes

@[simp] theorem takes_memory (t : Text) : memory.takes t = true := by
  simp [takes, memory]

/-- Streams of one encoding take the same texts. -/
theorem takes_of_eq (e e' : Encoding) (h : e = e') (t : Text) (ht : e.takes t = true) :
    e'.takes t = true :=
  h ▸ ht

@[simp] theorem takes_append (e : Encoding) (a b : Text) :
    e.takes (a ++ b) = (e.takes a && e.takes b) := by
  simp [takes]

end Encoding

end Parlance
