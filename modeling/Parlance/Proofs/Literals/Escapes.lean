/-
Escapes are resolved exactly once.

The body of a literal is taken apart into pieces: code points that stand for themselves and
escapes, each a backslash with one of seven letters.  A piece cannot be had otherwise, so to be
made of pieces is all there is to being a body.  The same code points are made of pieces in at
most one way, for the first of them tells what the first piece is, and reading a body is
replacing each piece by what it means.  What comes of that is not looked at again, whatever it
looks like.

Between its quotes a literal is such a body.  Every text has one that means it.
-/
import Parlance.Literal
import Parlance.Proofs.Basic

namespace Parlance

namespace Text

/-! ### Pieces -/

/-- The letters of the escapes, each with the character that it means after a backslash. -/
def escapes : List (Char × Char) :=
  [('b', '\x08'), ('n', '\n'), ('r', '\r'), ('t', '\t'), ('\\', '\\'), ('"', '"'), ('\'', '\'')]

/-- A piece of the body of a literal. -/
inductive Piece where
  /-- A code point that stands for itself. -/
  | plain (c : CodePoint) (apart : c ≠ backslash)
  /-- A backslash with a letter after it. -/
  | escape (letter meaning : Char) (listed : (letter, meaning) ∈ escapes)

/-- A piece as it is written. -/
def Piece.written : Piece → List CodePoint
  | plain c _ => [c]
  | escape letter _ _ => [backslash, .char letter]

/-- What a piece means. -/
def Piece.meaning : Piece → CodePoint
  | plain c _ => c
  | escape _ meaning _ => .char meaning

/-- Whether a piece is an escape. -/
def Piece.isEscape : Piece → Bool
  | plain .. => false
  | escape .. => true

/-- Pieces as they are written, one after the other. -/
def written (pieces : List Piece) : List CodePoint :=
  pieces.flatMap Piece.written

/-- What pieces mean. -/
def meant (pieces : List Piece) : List CodePoint :=
  pieces.map Piece.meaning

@[simp] theorem written_cons (p : Piece) (ps : List Piece) :
    written (p :: ps) = p.written ++ written ps :=
  List.flatMap_cons

@[simp] theorem meant_cons (p : Piece) (ps : List Piece) :
    meant (p :: ps) = p.meaning :: meant ps :=
  rfl

theorem written_append (ps qs : List Piece) : written (ps ++ qs) = written ps ++ written qs :=
  List.flatMap_append

theorem meant_append (ps qs : List Piece) : meant (ps ++ qs) = meant ps ++ meant qs :=
  List.map_append

/-- What a letter means after a backslash is what the list of escapes says. -/
theorem escaped?_eq_some {letter meaning : CodePoint} :
    escaped? letter = some meaning ↔
      ∃ l m, (l, m) ∈ escapes ∧ letter = .char l ∧ meaning = .char m := by
  constructor
  · intro h
    unfold escaped? at h
    split at h <;> cases h <;> exact ⟨_, _, by decide, rfl, rfl⟩
  · rintro ⟨l, m, listed, rfl, rfl⟩
    simp only [escapes, List.mem_cons, Prod.mk.injEq, List.not_mem_nil, or_false] at listed
    rcases listed with h | h | h | h | h | h | h <;> obtain ⟨rfl, rfl⟩ := h <;> rfl

/-- Each piece is written as one code point, and an escape as one more. -/
theorem Piece.written_length (p : Piece) : p.written.length = 1 + p.isEscape.toNat := by
  cases p <;> rfl

/-- As many code points are lost as there are escapes. -/
theorem meant_length (ps : List Piece) :
    (meant ps).length + ps.countP Piece.isEscape = (written ps).length := by
  induction ps with
  | nil => rfl
  | cons p ps ih =>
    rw [written_cons, List.length_append, p.written_length, meant_cons, List.length_cons,
      List.countP_cons]
    cases p.isEscape <;> simp <;> omega

/-- Code points are made of pieces in one way only. -/
theorem written_injective {ps qs : List Piece} (h : written ps = written qs) : ps = qs := by
  induction ps generalizing qs with
  | nil =>
    cases qs with
    | nil => rfl
    | cons q qs => cases q <;> cases h
  | cons p ps ih =>
    cases qs with
    | nil => cases p <;> cases h
    | cons q qs =>
      -- The first code point is a backslash for an escape and no backslash for a plain piece.
      cases p with
      | plain c apart =>
        cases q with
        | plain d _ =>
          obtain ⟨rfl, rest⟩ : c = d ∧ written ps = written qs := List.cons.inj h
          rw [ih rest]
        | escape => exact absurd (List.cons.inj h).1 apart
      | escape l m listed =>
        cases q with
        | plain d apart => exact absurd (List.cons.inj h).1.symm apart
        | escape l' m' listed' =>
          obtain ⟨hl, rest⟩ : CodePoint.char l = .char l' ∧ written ps = written qs :=
            List.cons.inj (List.cons.inj h).2
          obtain rfl : l = l' := CodePoint.char.inj hl
          have hm := escaped?_eq_some.mpr ⟨l, m, listed, rfl, rfl⟩
          rw [escaped?_eq_some.mpr ⟨l, m', listed', rfl, rfl⟩] at hm
          obtain rfl : m' = m := CodePoint.char.inj (Option.some.inj hm)
          rw [ih rest]

/-! ### Reading a body -/

theorem resolve?_plain {c : CodePoint} (apart : c ≠ backslash) (rest : List CodePoint) :
    resolve? (c :: rest) = (resolve? rest).map (c :: ·) := by
  rw [resolve?.eq_def]
  simp [apart]

theorem resolve?_escape (letter : CodePoint) (rest : List CodePoint) :
    resolve? (backslash :: letter :: rest) =
      (escaped? letter).bind fun meaning => (resolve? rest).map (meaning :: ·) := by
  rw [resolve?.eq_def]
  dsimp only
  rw [if_pos rfl]
  cases escaped? letter <;> cases resolve? rest <;> rfl

/-- Pieces are read as what they mean. -/
theorem resolve?_written (ps : List Piece) : resolve? (written ps) = some (meant ps) := by
  induction ps with
  | nil => rfl
  | cons p ps ih =>
    cases p with
    | plain c apart =>
      change resolve? (c :: written ps) = _
      rw [resolve?_plain apart, ih]
      rfl
    | escape l m listed =>
      change resolve? (backslash :: .char l :: written ps) = _
      rw [resolve?_escape, escaped?_eq_some.mpr ⟨l, m, listed, rfl, rfl⟩, ih]
      rfl

/-- What can be read is made of pieces. -/
theorem exists_pieces {cs out : List CodePoint} (h : resolve? cs = some out) :
    ∃ ps, written ps = cs := by
  induction cs using resolve?.induct generalizing out with
  | case1 => exact ⟨[], rfl⟩
  | case2 => cases h
  | case3 letter rest ih =>
    rw [resolve?_escape] at h
    obtain ⟨meaning, hm, h⟩ := Option.bind_eq_some_iff.mp h
    obtain ⟨_, hrest, -⟩ := Option.map_eq_some_iff.mp h
    obtain ⟨l, m, listed, rfl, -⟩ := escaped?_eq_some.mp hm
    obtain ⟨ps, rfl⟩ := ih hrest
    exact ⟨.escape l m listed :: ps, rfl⟩
  | case4 c rest apart ih =>
    rw [resolve?_plain apart] at h
    obtain ⟨_, hrest, -⟩ := Option.map_eq_some_iff.mp h
    obtain ⟨ps, rfl⟩ := ih hrest
    exact ⟨.plain c apart :: ps, rfl⟩

theorem resolve?_eq_some {cs out : List CodePoint} :
    resolve? cs = some out ↔ ∃ ps, cs = written ps ∧ out = meant ps := by
  constructor
  · intro h
    obtain ⟨ps, rfl⟩ := exists_pieces h
    rw [resolve?_written] at h
    exact ⟨ps, rfl, (Option.some.inj h).symm⟩
  · rintro ⟨ps, rfl, rfl⟩
    exact resolve?_written ps

theorem resolve?_eq_none {cs : List CodePoint} :
    resolve? cs = none ↔ ∀ ps, cs ≠ written ps := by
  rw [Option.eq_none_iff_forall_ne_some]
  constructor
  · rintro h ps rfl
    exact h _ (resolve?_written ps)
  · intro h out hout
    obtain ⟨ps, hps, -⟩ := resolve?_eq_some.mp hout
    exact h ps hps

/-! ### Writing a body -/

/-- A code point is written as a piece that means it. -/
theorem exists_piece (c : CodePoint) :
    ∃ p : Piece, p.written = escapeCodePoint c ∧ p.meaning = c := by
  unfold escapeCodePoint
  split
  case h_8 =>
    rename_i apart _ _
    exact ⟨.plain c apart, rfl, rfl⟩
  all_goals exact ⟨.escape _ _ (by decide), rfl, rfl⟩

/-- A text is written as pieces that mean it. -/
theorem exists_escape (cs : List CodePoint) : ∃ ps, written ps = escape cs ∧ meant ps = cs := by
  induction cs with
  | nil => exact ⟨[], rfl, rfl⟩
  | cons c cs ih =>
    obtain ⟨p, hp, hc⟩ := exists_piece c
    obtain ⟨ps, hps, hcs⟩ := ih
    exact ⟨p :: ps, by rw [written_cons, hp, hps]; rfl, by rw [meant_cons, hc, hcs]⟩

end Text

namespace Literal

open Text (Piece written meant)

/-! ### Between quotes -/

/-- A text between two quotes, and what is inside of them. -/
structure Enclosed (quote : Char) (t : Text) (inside : List CodePoint) : Prop where
  length : 2 ≤ t.length
  opened : t.toList.head? = some (.char quote)
  closed : t.toList.getLast? = some (.char quote)
  eq : inside = t.toList.tail.dropLast

theorem enclosed_iff {quote : Char} {t : Text} {inside : List CodePoint} :
    Enclosed quote t inside ↔ t.toList = .char quote :: (inside ++ [.char quote]) := by
  constructor
  · rintro ⟨length, opened, closed, rfl⟩
    unfold Text.length at length
    revert length opened closed
    rcases t.toList with - | ⟨c, rest⟩
    · simp
    · rintro length ⟨⟩ closed
      have hrest : rest ≠ [] := by rintro rfl; simp at length
      rw [List.getLast?_cons_of_ne_nil hrest] at closed
      simp [List.dropLast_append_getLast? _ closed]
  · intro h
    constructor <;> simp [h, Text.length, List.getLast?_cons]

theorem body?_eq_some {quote : Char} {t : Text} {inside : List CodePoint} :
    body? quote t.toList = some inside ↔ Enclosed quote t inside := by
  rw [enclosed_iff]
  rcases t.toList with - | ⟨c, rest⟩
  · simp [body?]
  · unfold body?
    dsimp only
    constructor
    · intro h
      split at h
      case isTrue hc =>
        cases h
        rw [hc.1, List.dropLast_append_getLast? _ hc.2]
      case isFalse => cases h
    · intro h
      obtain ⟨rfl, rfl⟩ := List.cons.inj h
      simp

theorem body?_eq_none {quote : Char} {t : Text} :
    body? quote t.toList = none ↔ ∀ inside, ¬Enclosed quote t inside := by
  rw [Option.eq_none_iff_forall_ne_some]
  exact forall_congr' fun inside => not_congr body?_eq_some

/-! ### What is read -/

theorem unescape_ok {t u : Text} :
    unescape t = .ok u ↔ ∃ ps, t.toList = written ps ∧ u.toList = meant ps := by
  rw [unescape]
  cases h : Text.resolve? t.toList with
  | none =>
    refine ⟨nofun, ?_⟩
    rintro ⟨ps, hps, -⟩
    exact absurd hps (Text.resolve?_eq_none.mp h ps)
  | some cs =>
    obtain ⟨ps, hps, rfl⟩ := Text.resolve?_eq_some.mp h
    constructor
    · rintro ⟨⟩
      exact ⟨ps, hps, Text.toList_ofList _⟩
    · rintro ⟨qs, hqs, hu⟩
      obtain rfl := Text.written_injective (hps.symm.trans hqs)
      exact congrArg Except.ok (Text.ext_toList (by rw [Text.toList_ofList, hu]))

theorem unescape_error {t : Text} {e : DocumentFault} :
    unescape t = .error e ↔ (∀ ps, t.toList ≠ written ps) ∧ e = .invalidEscape t := by
  rw [← Text.resolve?_eq_none, unescape]
  cases Text.resolve? t.toList <;> simp [eq_comm]

theorem unquote_ok {quote : Char} {t u : Text} :
    unquote quote t = .ok u ↔ ∃ ps, Enclosed quote t (written ps) ∧ u.toList = meant ps := by
  rw [unquote]
  cases h : body? quote t.toList with
  | none =>
    refine ⟨nofun, ?_⟩
    rintro ⟨ps, enclosed, -⟩
    exact absurd enclosed (body?_eq_none.mp h _)
  | some inside =>
    have enclosed := body?_eq_some.mp h
    dsimp only
    rw [unescape_ok, Text.toList_ofList]
    constructor
    · rintro ⟨ps, rfl, hu⟩
      exact ⟨ps, enclosed, hu⟩
    · rintro ⟨ps, enclosed', hu⟩
      exact ⟨ps, enclosed.eq.trans enclosed'.eq.symm, hu⟩

/-- The ways in which a literal between quotes is refused before its body is looked at as
a value. -/
inductive Misquoted (quote : Char) (t : Text) : DocumentFault → Prop where
  | quotes (h : ∀ inside, ¬Enclosed quote t inside) : Misquoted quote t (.notQuoted quote t)
  | escape {inside : List CodePoint} (enclosed : Enclosed quote t inside)
      (h : ∀ ps, inside ≠ written ps) : Misquoted quote t (.invalidEscape (.ofList inside))

theorem unquote_error {quote : Char} {t : Text} {e : DocumentFault} :
    unquote quote t = .error e ↔ Misquoted quote t e := by
  rw [unquote]
  cases h : body? quote t.toList with
  | none =>
    have bare := body?_eq_none.mp h
    constructor
    · rintro ⟨⟩
      exact .quotes bare
    · rintro (_ | ⟨enclosed, -⟩)
      · rfl
      · exact absurd enclosed (bare _)
  | some inside =>
    have enclosed := body?_eq_some.mp h
    dsimp only
    rw [unescape_error, Text.toList_ofList]
    constructor
    · rintro ⟨bad, rfl⟩
      exact .escape enclosed bad
    · rintro (bare | ⟨enclosed', bad⟩)
      · exact absurd enclosed (bare _)
      · rw [enclosed.eq, ← enclosed'.eq]
        exact ⟨bad, rfl⟩

/-- What it is to resolve the escapes of a text exactly once. -/
structure ResolvesOnce (read : Text → Except DocumentFault Text) : Prop where
  /-- What is read is made of pieces. -/
  accepts (t : Text) : (∃ u, read t = .ok u) ↔ ∃ ps, t.toList = written ps
  /-- There is one way to take it apart. -/
  unique {t : Text} {ps qs : List Piece} : t.toList = written ps → t.toList = written qs → ps = qs
  /-- Each piece is replaced by what it means. -/
  result {t u : Text} {ps : List Piece} :
    read t = .ok u → t.toList = written ps → u.toList = meant ps
  /-- One code point is lost for each escape. -/
  length {t u : Text} {ps : List Piece} :
    read t = .ok u → t.toList = written ps → u.length + ps.countP Piece.isEscape = t.length
  append {a b u v : Text} : read a = .ok u → read b = .ok v → read (a ++ b) = .ok (u ++ v)
  /-- Whatever else there is, is refused. -/
  refuses {t : Text} : (∀ ps, t.toList ≠ written ps) → read t = .error (.invalidEscape t)

theorem unescape_resolvesOnce : ResolvesOnce unescape where
  accepts t := by
    constructor
    · rintro ⟨u, hu⟩
      obtain ⟨ps, hps, -⟩ := unescape_ok.mp hu
      exact ⟨ps, hps⟩
    · rintro ⟨ps, hps⟩
      exact ⟨_, unescape_ok.mpr ⟨ps, hps, Text.toList_ofList _⟩⟩
  unique hps hqs := Text.written_injective (hps.symm.trans hqs)
  result hu hps := by
    obtain ⟨qs, hqs, hu⟩ := unescape_ok.mp hu
    rw [hu, Text.written_injective (hqs.symm.trans hps)]
  length {t u ps} hu hps := by
    obtain ⟨qs, hqs, hu⟩ := unescape_ok.mp hu
    obtain rfl := Text.written_injective (hqs.symm.trans hps)
    rw [Text.length, Text.length, hu, hps, Text.meant_length]
  append ha hb := by
    obtain ⟨ps, hps, hu⟩ := unescape_ok.mp ha
    obtain ⟨qs, hqs, hv⟩ := unescape_ok.mp hb
    refine unescape_ok.mpr ⟨ps ++ qs, ?_, ?_⟩
    · rw [Text.toList_append, hps, hqs, Text.written_append]
    · rw [Text.toList_append, hu, hv, Text.meant_append]
  refuses h := unescape_error.mpr ⟨h, rfl⟩

/-- What an escape means is not looked at again. -/
example : unescape "\\\\n" = .ok "\\n" := by
  decide +kernel

/-! ### Literals -/

theorem string_ok {t : Text} {v : Value} :
    string t = .ok v ↔
      ∃ ps, Enclosed '"' t (written ps) ∧ v = .string (.ofList (meant ps)) := by
  change (unquote '"' t).map Value.string = .ok v ↔ _
  rw [Except.map_ok]
  constructor
  · rintro ⟨u, hu, rfl⟩
    obtain ⟨ps, enclosed, hu⟩ := unquote_ok.mp hu
    exact ⟨ps, enclosed, by rw [← hu, Text.ofList_toList]⟩
  · rintro ⟨ps, enclosed, rfl⟩
    exact ⟨_, unquote_ok.mpr ⟨ps, enclosed, Text.toList_ofList _⟩, rfl⟩

theorem string_error {t : Text} {e : DocumentFault} :
    string t = .error e ↔ Misquoted '"' t e := by
  change (unquote '"' t).map Value.string = .error e ↔ _
  rw [Except.map_error, unquote_error]

/-- A character is what the body of its literal means, if that is one code point. -/
theorem character_eq (t : Text) :
    character t = unquote '\'' t >>= fun u =>
      match u.toList with
      | [c] => .ok (.character c)
      | _ => .error (.notOneCharacter t) := by
  unfold character Value.ofCharacterText?
  refine bind_congr fun u => ?_
  rcases u.toList with - | ⟨c, - | ⟨d, rest⟩⟩ <;> rfl

theorem character_ok {t : Text} {v : Value} :
    character t = .ok v ↔
      ∃ ps c, Enclosed '\'' t (written ps) ∧ meant ps = [c] ∧ v = .character c := by
  rw [character_eq, bind_ok]
  constructor
  · rintro ⟨u, hu, h⟩
    obtain ⟨ps, enclosed, hps⟩ := unquote_ok.mp hu
    split at h
    case h_1 c hc =>
      cases h
      exact ⟨ps, c, enclosed, hps.symm.trans hc, rfl⟩
    case h_2 => cases h
  · rintro ⟨ps, c, enclosed, hc, rfl⟩
    refine ⟨.ofList [c], unquote_ok.mpr ⟨ps, enclosed, by rw [hc, Text.toList_ofList]⟩, ?_⟩
    rw [Text.toList_ofList]

theorem character_error {t : Text} {e : DocumentFault} :
    character t = .error e ↔ Misquoted '\'' t e ∨
      ∃ ps, Enclosed '\'' t (written ps) ∧ (meant ps).length ≠ 1 ∧ e = .notOneCharacter t := by
  rw [character_eq, bind_error, unquote_error]
  refine or_congr_right ⟨?_, ?_⟩
  · rintro ⟨u, hu, h⟩
    obtain ⟨ps, enclosed, hps⟩ := unquote_ok.mp hu
    split at h
    case h_1 => cases h
    case h_2 hmany =>
      cases h
      refine ⟨ps, enclosed, fun hone => ?_, rfl⟩
      obtain ⟨c, hc⟩ := List.length_eq_one_iff.mp hone
      exact hmany c (hps.trans hc)
  · rintro ⟨ps, enclosed, hmany, rfl⟩
    refine ⟨.ofList (meant ps), unquote_ok.mpr ⟨ps, enclosed, Text.toList_ofList _⟩, ?_⟩
    rw [Text.toList_ofList]
    split
    case h_1 c hc => exact absurd (congrArg List.length hc) hmany
    case h_2 => rfl

/-- Every text is what some literal means: the text with its escapes written, in quotes. -/
theorem string_escape (s : Text) :
    string (.ofList (.char '"' :: (Text.escape s.toList ++ [.char '"']))) = .ok (.string s) := by
  obtain ⟨ps, hps, hs⟩ := Text.exists_escape s.toList
  refine string_ok.mpr ⟨ps, enclosed_iff.mpr ?_, ?_⟩
  · rw [Text.toList_ofList, hps]
  · rw [hs, Text.ofList_toList]

/-- Escapes are resolved exactly once, in a text as it stands and between the quotes of a string
or a character.  Whatever else there is, is refused as malformed, and every text is what some
string literal means. -/
theorem escapes_resolved_once :
    ResolvesOnce unescape
      ∧ (∀ t v, string t = .ok v ↔
          ∃ ps, Enclosed '"' t (written ps) ∧ v = .string (.ofList (meant ps)))
      ∧ (∀ t v, character t = .ok v ↔
          ∃ ps c, Enclosed '\'' t (written ps) ∧ meant ps = [c] ∧ v = .character c)
      ∧ (∀ t e, string t = .error e ↔ Misquoted '"' t e)
      ∧ (∀ t e, character t = .error e ↔ Misquoted '\'' t e ∨
          ∃ ps, Enclosed '\'' t (written ps) ∧ (meant ps).length ≠ 1 ∧ e = .notOneCharacter t)
      ∧ (∀ e, (Fault.document e).kind = "MalformedAst")
      ∧ ∀ s : Text, string (.ofList (.char '"' :: (Text.escape s.toList ++ [.char '"'])))
          = .ok (.string s) :=
  ⟨unescape_resolvesOnce, fun _ _ => string_ok, fun _ _ => character_ok, fun _ _ => string_error,
    fun _ _ => character_error, fun _ => rfl, string_escape⟩

end Literal

end Parlance
