/-
Texts.

A text is a sequence of code points.  Nearly all of them are characters, but a document can
spell a surrogate that has no partner, and such a one is a code point and no character.  So a
text is kept as stretches of characters with one surrogate between each two of them; a text
without surrogates is a single stretch, and a string is one as it stands.
-/

namespace Parlance

/-- A surrogate, by its distance from the first one, `U+D800`. -/
abbrev Surrogate := Fin 2048

/-- A character, or a surrogate on its own. -/
inductive CodePoint where
  | char (c : Char)
  | surrogate (s : Surrogate)
deriving DecidableEq, Repr, Inhabited

instance : Coe Char CodePoint := ⟨.char⟩

namespace CodePoint

/-- The number of a code point. -/
def toNat : CodePoint → Nat
  | char c => c.toNat
  | surrogate s => 0xd800 + s.val

/-- The code point of a number, as long as there is one. -/
def ofNat (n : Nat) : CodePoint :=
  if h : 0xd800 ≤ n ∧ n < 0xe000 then .surrogate ⟨n - 0xd800, by omega⟩ else .char (Char.ofNat n)

/-- No two code points have one number. -/
theorem toNat_injective {a b : CodePoint} (h : a.toNat = b.toNat) : a = b := by
  have apart (c : Char) (s : Surrogate) : c.toNat ≠ 0xd800 + s.val := by
    have hc : c.toNat.isValidChar := c.valid
    have hs := s.isLt
    simp only [Nat.isValidChar] at hc
    omega
  cases a with
  | char c =>
    cases b with
    | char d => rw [Char.toNat_inj.mp h]
    | surrogate s => exact absurd h (apart c s)
  | surrogate s =>
    cases b with
    | char d => exact absurd h.symm (apart d s)
    | surrogate t =>
      have : s.val = t.val := by simpa [toNat] using h
      rw [Fin.ext this]

end CodePoint

/-- A text: a stretch of characters, then surrogates, each with the stretch that follows it. -/
structure Text where
  head : String
  rest : List (Surrogate × String)
deriving DecidableEq, Repr, Inhabited

instance : Coe String Text := ⟨fun s => ⟨s, []⟩⟩

instance : Coe (List String) (List Text) := ⟨List.map fun (s : String) => s⟩

namespace Text

/-! ### As a sequence of code points -/

/-- The code points of a text. -/
def toList (t : Text) : List CodePoint :=
  t.head.toList.map .char
    ++ t.rest.flatMap fun (s, stretch) => .surrogate s :: stretch.toList.map .char

/-- The text of code points, given the characters before them, last character first. -/
def ofListAfter (before : List Char) : List CodePoint → Text
  | [] => ⟨String.ofList before.reverse, []⟩
  | .char c :: cs => ofListAfter (c :: before) cs
  | .surrogate s :: cs =>
    let after := ofListAfter [] cs
    ⟨String.ofList before.reverse, (s, after.head) :: after.rest⟩

/-- The text of code points. -/
def ofList (cs : List CodePoint) : Text :=
  ofListAfter [] cs

theorem toList_ofListAfter (before : List Char) (cs : List CodePoint) :
    (ofListAfter before cs).toList = before.reverse.map .char ++ cs := by
  induction cs generalizing before with
  | nil => simp [ofListAfter, toList]
  | cons c cs ih =>
    cases c with
    | char c => simp [ofListAfter, ih]
    | surrogate s =>
      have := ih []
      simp only [toList, List.reverse_nil, List.map_nil, List.nil_append] at this
      simp [ofListAfter, toList, this]

@[simp] theorem toList_ofList (cs : List CodePoint) : (ofList cs).toList = cs := by
  simp [ofList, toList_ofListAfter]

theorem ofListAfter_chars (before cs : List Char) (more : List CodePoint) :
    ofListAfter before (cs.map .char ++ more) = ofListAfter (cs.reverse ++ before) more := by
  induction cs generalizing before with
  | nil => rfl
  | cons c cs ih => simp [ofListAfter, ih]

@[simp] theorem ofList_toList (t : Text) : ofList t.toList = t := by
  obtain ⟨head, rest⟩ := t
  induction rest generalizing head with
  | nil =>
    have := ofListAfter_chars [] head.toList []
    simpa [ofList, toList, ofListAfter] using this
  | cons r rest ih =>
    obtain ⟨s, stretch⟩ := r
    have := ih stretch
    simp only [ofList, toList] at this
    simp [ofList, toList, ofListAfter_chars, ofListAfter, this]

/-- A text is known by its code points. -/
theorem ext_toList {a b : Text} (h : a.toList = b.toList) : a = b := by
  rw [← ofList_toList a, h, ofList_toList]

/-- The number of code points. -/
def length (t : Text) : Nat :=
  t.toList.length

/-- The text of one code point. -/
def singleton (c : CodePoint) : Text :=
  ofList [c]

/-- The string that a text is, if it holds no surrogate. -/
def toString? (t : Text) : Option String :=
  match t.rest with
  | [] => some t.head
  | _ :: _ => none

/-! ### Joining -/

/-- The stretches of a text that ends in `more`. -/
def appendAfter (more : Text) : List (Surrogate × String) → List (Surrogate × String)
  | [] => []
  | [(s, stretch)] => (s, stretch ++ more.head) :: more.rest
  | r :: rest => r :: appendAfter more rest

/-- One text after another. -/
def append : Text → Text → Text
  | ⟨head, []⟩, more => ⟨head ++ more.head, more.rest⟩
  | ⟨head, r :: rest⟩, more => ⟨head, appendAfter more (r :: rest)⟩

instance : Append Text := ⟨append⟩

@[simp] theorem toList_append (a b : Text) : (a ++ b).toList = a.toList ++ b.toList := by
  obtain ⟨head, rest⟩ := a
  change (append ⟨head, rest⟩ b).toList = _
  cases rest with
  | nil => simp [append, toList]
  | cons r rest =>
    have inner (r : Surrogate × String) :
        (appendAfter b (r :: rest)).flatMap
            (fun r => CodePoint.surrogate r.1 :: r.2.toList.map CodePoint.char)
          = (r :: rest).flatMap
              (fun r => CodePoint.surrogate r.1 :: r.2.toList.map CodePoint.char) ++ b.toList := by
      induction rest generalizing r with
      | nil => simp [appendAfter, toList]
      | cons r' rest ih => simp [appendAfter, ih r']
    simpa [append, toList] using inner r

theorem append_assoc (a b c : Text) : a ++ b ++ c = a ++ (b ++ c) :=
  ext_toList (by simp)

/-- Texts one after the other, with a separator between each two. -/
def intercalate (separator : Text) : List Text → Text
  | [] => ""
  | t :: ts => ts.foldl (fun before t => before ++ separator ++ t) t

/-- The lines of a text, each with its end. -/
def ofLines (lines : List Text) : Text :=
  lines.foldl (fun before line => before ++ line ++ "\n") ""

end Text

end Parlance
