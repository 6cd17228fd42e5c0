/-
What the reader reads.

The reader takes the documents of the grammar and no other: each part of a node is read as
the grammar asks for it, and each form is read as its production says.

The two directions go together, by induction on the size of the document.
-/
import Parlance.Document.Reader
import Parlance.Proofs.Basic
import Parlance.Proofs.Document.Grammar

namespace Parlance.Document

theorem isText_string {s t : Text} : IsText (.string s) t ↔ t = s := by
  constructor
  · rintro ⟨⟩
    rfl
  · rintro rfl
    exact .string _

/-! ### Nodes -/

section Nodes

variable {d : Json} {es : List (Text × Json)} {form : String} {allowed : List String}

theorem coe_inj {a b : String} : (a : Text) = (b : Text) ↔ a = b := by
  simp [Text.mk.injEq]

theorem node_ok {n : Node d} (h : node allowed d = .ok n) :
    ∃ form ∈ allowed, ∃ es, d = .object es ∧ Tagged form es := by
  unfold node at h
  split at h
  · next es =>
    split at h
    · cases h
    · next tag htag =>
      split at h
      · next form hform =>
        have : tag = (form : Text) := by simpa using List.find?_some hform
        subst this
        exact ⟨form, List.mem_of_find?_eq_some hform, es, rfl, htag⟩
      · cases h
    · cases h
  · cases h

theorem node_tagged (h : Tagged form es) (hform : form ∈ allowed) :
    node allowed (.object es) = .ok ⟨form, es, rfl⟩ := by
  have find : allowed.find? (fun f : String => (form : Text) == (f : Text)) = some form := by
    cases hf : allowed.find? (fun f : String => (form : Text) == (f : Text)) with
    | none => simpa using List.find?_eq_none.mp hf form hform
    | some f =>
      have : (form : Text) = (f : Text) := by simpa using List.find?_some hf
      rw [coe_inj.mp this]
  unfold Tagged at h
  simp only [node, h, find]

end Nodes

/-! ### Parts -/

namespace Node

variable {d : Json} (n : Node d) {key : String} {β : Type} {read : Json → Reading β}

theorem part_ok {b : β} : n.part key (fun v _ => read v) = .ok b ↔
    ∃ v, Json.get? key n.entries = some v ∧ read v = .ok b := by
  unfold part
  split
  · next h => simp [h]
  · next v h => simp [h]

theorem part?_ok {R : Json → β → Prop} {o : Option β} (notNull : ∀ b, ¬ R .null b)
    (read_ok : ∀ v, Json.get? key n.entries = some v → ∀ b, read v = .ok b ↔ R v b) :
    n.part? key (fun v _ => read v) = .ok o ↔ Optionally R (Json.get? key n.entries) o := by
  unfold part?
  split
  · next h =>
    simp only [h, optionally_none]
    exact ⟨fun ho => (Except.ok.inj ho).symm, congrArg _ ∘ Eq.symm⟩
  · next v h =>
    split
    · simp only [h, optionally_null notNull]
      exact ⟨fun ho => (Except.ok.inj ho).symm, congrArg _ ∘ Eq.symm⟩
    · next hv =>
      have hv : v ≠ .null := by
        rintro rfl
        exact hv h rfl HEq.rfl
      simp only [h, optionally_some hv, Bool.false_eq_true, if_false, Except.map_ok, read_ok v h]
      simp only [eq_comm]

theorem readAll_ok {size : Nat} {items : List Json} (small : ∀ v ∈ items, sizeOf v < size)
    {bs : List β} : readAll (fun v _ => read v) items small = .ok bs ↔
      List.Forall₂ (fun v b => read v = .ok b) items bs := by
  induction items generalizing bs with
  | nil =>
    constructor
    · rintro ⟨⟩
      exact .nil
    · rintro ⟨⟩
      rfl
  | cons v rest ih =>
    simp only [readAll, bind_ok]
    constructor
    · rintro ⟨b, hb, bs', hbs, ⟨⟩⟩
      exact .cons hb ((ih _).mp hbs)
    · intro h
      cases h with
      | cons hb hbs => exact ⟨_, hb, _, (ih _).mpr hbs, rfl⟩

theorem parts_ok {R : Json → β → Prop} {bs : List β}
    (read_ok : ∀ items, Json.get? key n.entries = some (.array items) →
      ∀ v ∈ items, ∀ b, read v = .ok b ↔ R v b) :
    n.parts key (fun v _ => read v) = .ok bs ↔ Listed R (Json.get? key n.entries) bs := by
  unfold parts
  split
  · next h =>
    simp only [h, listed_none]
    exact ⟨fun hbs => (Except.ok.inj hbs).symm, congrArg _ ∘ Eq.symm⟩
  · next items h =>
    simp only [h, listed_array, readAll_ok]
    exact forall₂_congr_mem (read_ok items h)
  · next v hv h =>
    simp only [h, iff_false_right (not_listed hv), reduceCtorEq, not_false_eq_true]

theorem text_ok {t : Text} :
    n.text key = .ok t ↔ Json.get? key n.entries = some (.string t) := by
  unfold text
  split
  · next h => simp [h]
  · next s h => simp [h]
  · next v hv h =>
    simp only [h, reduceCtorEq, Option.some.injEq, false_iff]
    exact hv t

theorem text?_ok {o : Option Text} :
    n.text? key = .ok o ↔ Optionally IsText (Json.get? key n.entries) o := by
  have notNull (t : Text) : ¬ IsText .null t := nofun
  unfold text?
  split
  · next h =>
    simp only [h, optionally_none]
    exact ⟨fun ho => (Except.ok.inj ho).symm, congrArg _ ∘ Eq.symm⟩
  · next h =>
    simp only [h, optionally_null notNull]
    exact ⟨fun ho => (Except.ok.inj ho).symm, congrArg _ ∘ Eq.symm⟩
  · next s h =>
    have hs : Json.string s ≠ .null := nofun
    simp only [h, optionally_some hs, isText_string, exists_eq_left, Except.ok.injEq]
    simp only [eq_comm]
  · next v hnull hstring h =>
    simp only [h, optionally_some hnull, reduceCtorEq, false_iff]
    rintro ⟨t, ⟨⟩, -⟩
    exact hstring t rfl

theorem allTexts?_eq_some {items : List Json} {ts : List Text} :
    allTexts? items = some ts ↔ List.Forall₂ IsText items ts := by
  induction items generalizing ts with
  | nil => simp [allTexts?, eq_comm]
  | cons v rest ih =>
    simp only [List.forall₂_cons_left_iff]
    cases v with
    | string s =>
      simp only [allTexts?, Option.map_eq_some_iff, ih, isText_string, exists_and_left,
        exists_eq_left]
      simp only [eq_comm]
    | _ =>
      refine iff_of_false nofun ?_
      rintro ⟨t, _, ⟨⟩, -⟩

theorem texts_ok {ts : List Text} :
    n.texts key = .ok ts ↔ Listed IsText (Json.get? key n.entries) ts := by
  unfold texts
  split
  · next h =>
    simp only [h, listed_none]
    exact ⟨fun hts => (Except.ok.inj hts).symm, congrArg _ ∘ Eq.symm⟩
  · next items h =>
    simp only [h, listed_array, ← allTexts?_eq_some]
    split
    · next ss hss => simp [hss]
    · next hss => simp [hss]
  · next v hv h =>
    simp only [h, iff_false_right (not_listed hv), reduceCtorEq, not_false_eq_true]

end Node

/-! ### Literals -/

section Literals

open Parlance.Literal (kind? ofPayload)

theorem kind?_eq_some {k : Json} {b : Builtin} : kind? k = some b ↔ k = .string b.name := by
  constructor
  · intro h
    unfold kind? at h
    split at h
    · next t =>
      have := List.find?_some h
      simp only [beq_iff_eq] at this
      rw [this]
    · cases h
  · rintro rfl
    cases b <;> decide

theorem ofCharacterText?_eq_some {t : Text} {v : Value} :
    Value.ofCharacterText? t = some v ↔ ∃ c, t = Text.singleton c ∧ v = .character c := by
  unfold Value.ofCharacterText?
  split
  · next c h =>
    constructor
    · rintro ⟨⟩
      exact ⟨c, Text.ext_toList (by simp [h, Text.singleton]), rfl⟩
    · rintro ⟨c', rfl, rfl⟩
      simp_all [Text.singleton]
  · next h =>
    refine iff_of_false nofun ?_
    rintro ⟨c, rfl, -⟩
    exact h c (by simp [Text.singleton])

theorem toString?_bind {α : Type} {f : String → Option α} {t : Text} {a : α} :
    t.toString?.bind f = some a ↔ ∃ s : String, t = s ∧ f s = some a := by
  obtain ⟨head, rest⟩ := t
  cases rest with
  | nil => simp [Text.toString?, Text.mk.injEq]
  | cons r rest => simp [Text.toString?, Text.mk.injEq]

theorem integer_ok {t : Text} {v : Value} : Literal.integer t = .ok v ↔
    ∃ s : String, t = s ∧ ∃ n, Number.integer? s = some n ∧ .integer n = v := by
  unfold Literal.integer
  split
  · next n h =>
    obtain ⟨s, rfl, hn⟩ := toString?_bind.mp h
    simp [hn]
  · next h =>
    refine iff_of_false nofun ?_
    rintro ⟨s, hs, n, hn, -⟩
    exact Option.eq_none_iff_forall_ne_some.mp h n (toString?_bind.mpr ⟨s, hs, hn⟩)

theorem decimal_ok {t : Text} {v : Value} : Literal.decimal t = .ok v ↔
    ∃ s : String, t = s ∧ ∃ d, Decimal.ofText? s = some d ∧ .decimal d = v := by
  unfold Literal.decimal
  split
  · next d h =>
    obtain ⟨s, rfl, hd⟩ := toString?_bind.mp h
    simp [hd]
  · next h =>
    refine iff_of_false nofun ?_
    rintro ⟨s, hs, d, hd, -⟩
    exact Option.eq_none_iff_forall_ne_some.mp h d (toString?_bind.mpr ⟨s, hs, hd⟩)

theorem eq_some_of_getD {o : Option Json} {v : Json} (h : o.getD .null = v) (hv : v ≠ .null) :
    o = some v := by
  cases o with
  | none => exact absurd h.symm hv
  | some w => exact congrArg some h

/-- The reader takes the payloads of the grammar. -/
theorem ofPayload_ok {p : Json} {v : Value} : ofPayload p = .ok v ↔ SpellsValue p v := by
  constructor
  · intro h
    unfold ofPayload at h
    split at h
    case h_2 => cases h
    next es =>
    split at h
    case h_1 => cases h
    next kind hkind =>
    simp only at h
    have ofKind {b : Builtin} (hb : kind? kind = some b) : OfKind b es := by
      rw [OfKind, hkind, kind?_eq_some.mp hb]
    split at h
    · next hk =>
      cases h
      exact .nil (ofKind hk)
    · next b hk hraw =>
      cases h
      exact .boolean (ofKind hk) (eq_some_of_getD hraw nofun)
    · next t hk hraw =>
      obtain ⟨s, rfl, n, hn, rfl⟩ := integer_ok.mp h
      exact .integer (ofKind hk) (eq_some_of_getD hraw nofun) hn
    · next t hk hraw =>
      obtain ⟨s, rfl, d, hd, rfl⟩ := decimal_ok.mp h
      exact .decimal (ofKind hk) (eq_some_of_getD hraw nofun) hd
    · next t hk hraw =>
      split at h
      · next hc =>
        cases h
        obtain ⟨c, rfl, rfl⟩ := ofCharacterText?_eq_some.mp hc
        exact .character (ofKind hk) (eq_some_of_getD hraw nofun)
      · cases h
    · next t hk hraw =>
      cases h
      exact .string (ofKind hk) (eq_some_of_getD hraw nofun)
    · cases h
  · have named (b : Builtin) : kind? (.string b.name) = some b := kind?_eq_some.mpr rfl
    intro h
    cases h with
    | nil kind =>
      unfold OfKind at kind
      simp only [ofPayload, kind, named]
    | boolean kind value =>
      unfold OfKind at kind
      simp only [ofPayload, kind, named, value, Option.getD_some]
    | integer kind value numeral =>
      unfold OfKind at kind
      simp only [ofPayload, kind, named, value, Option.getD_some]
      exact integer_ok.mpr ⟨_, rfl, _, numeral, rfl⟩
    | decimal kind value numeral =>
      unfold OfKind at kind
      simp only [ofPayload, kind, named, value, Option.getD_some]
      exact decimal_ok.mpr ⟨_, rfl, _, numeral, rfl⟩
    | character kind value =>
      unfold OfKind at kind
      simp only [ofPayload, kind, named, value, Option.getD_some,
        ofCharacterText?_eq_some.mpr ⟨_, rfl, rfl⟩]
    | string kind value =>
      unfold OfKind at kind
      simp only [ofPayload, kind, named, value, Option.getD_some]

end Literals

/-! ### Trees -/

theorem not_spellsExpr_null (e : Expr) : ¬ SpellsExpr .null e := by
  rintro ⟨⟩

section Smaller

variable {es : List (Text × Json)}

/-- The documents smaller than an object are read as the grammar says. -/
def ReadsSmaller {β : Type} (read : Json → Reading β) (R : Json → β → Prop)
    (es : List (Text × Json)) : Prop :=
  ∀ v, sizeOf v < sizeOf (Json.object es) → ∀ b, read v = .ok b ↔ R v b

variable {form key : String} {β : Type} {read : Json → Reading β} {R : Json → β → Prop}
  {isObject : Json.object es = Json.object es}

theorem ReadsSmaller.part_ok (ih : ReadsSmaller read R es) {b : β} :
    (Node.mk form es isObject).part key (fun v _ => read v) = .ok b ↔
      ∃ v, Json.get? key es = some v ∧ R v b := by
  rw [Node.part_ok]
  exact exists_congr fun v => and_congr_right fun hv => ih v (Json.sizeOf_lt_of_get? hv) b

theorem ReadsSmaller.part?_ok (ih : ReadsSmaller toExpr SpellsExpr es) {o : Option Expr} :
    (Node.mk form es isObject).part? key (fun v _ => toExpr v) = .ok o ↔
      Optionally SpellsExpr (Json.get? key es) o :=
  Node.part?_ok _ not_spellsExpr_null fun v hv => ih v (Json.sizeOf_lt_of_get? hv)

theorem ReadsSmaller.parts_ok (ih : ReadsSmaller read R es) {bs : List β} :
    (Node.mk form es isObject).parts key (fun v _ => read v) = .ok bs ↔
      Listed R (Json.get? key es) bs :=
  Node.parts_ok _ fun _ hitems v hv =>
    ih v (Nat.lt_trans (Json.sizeOf_lt_of_mem hv) (Json.sizeOf_lt_of_get? hitems))

end Smaller

/-- An expression is read as the grammar says if the smaller documents are. -/
theorem toExpr_object_ok {es : List (Text × Json)} (ih : ReadsSmaller toExpr SpellsExpr es)
    {e : Expr} : toExpr (.object es) = .ok e ↔ SpellsExpr (.object es) e := by
  constructor
  · intro h
    rw [toExpr] at h
    obtain ⟨n, hn, h⟩ := bind_ok.mp h
    obtain ⟨form, hform, es, ⟨⟩, tag⟩ := node_ok hn
    rw [node_tagged tag hform] at hn
    cases hn
    simp only [exprForms, List.mem_cons, List.not_mem_nil, or_false] at hform
    -- The tag decides, in the order of the reader's list: literal, group, binary, access, call.
    rcases hform with rfl | rfl | rfl | rfl | rfl
    · obtain ⟨v, hv, ⟨⟩⟩ := bind_ok.mp h
      obtain ⟨p, hp, hv⟩ := (Node.part_ok _).mp hv
      exact .literal tag hp (ofPayload_ok.mp hv)
    · obtain ⟨e, he, ⟨⟩⟩ := bind_ok.mp h
      obtain ⟨d, hd, he⟩ := ih.part_ok.mp he
      exact .group tag hd he
    · obtain ⟨op, hop, h⟩ := bind_ok.mp h
      obtain ⟨l, hl, h⟩ := bind_ok.mp h
      obtain ⟨r, hr, ⟨⟩⟩ := bind_ok.mp h
      obtain ⟨dl, hdl, hl⟩ := ih.part_ok.mp hl
      obtain ⟨dr, hdr, hr⟩ := ih.part_ok.mp hr
      exact .binary tag ((Node.text_ok _).mp hop) hdl hl hdr hr
    · obtain ⟨receiver, hr, h⟩ := bind_ok.mp h
      obtain ⟨name, hname, h⟩ := bind_ok.mp h
      have hname := (Node.text_ok _).mp hname
      rcases (ih.part?_ok.mp hr).cases_place with
        ⟨hvacant, rfl⟩ | ⟨d, r, hd, spells, rfl⟩
      · cases h
        exact .access tag hvacant hname
      · cases h
        exact .member tag hd spells hname
    · obtain ⟨receiver, hr, h⟩ := bind_ok.mp h
      obtain ⟨name, hname, h⟩ := bind_ok.mp h
      obtain ⟨as, has, h⟩ := bind_ok.mp h
      have hname := (Node.text_ok _).mp hname
      have has := ih.parts_ok.mp has
      rcases (ih.part?_ok.mp hr).cases_place with
        ⟨hvacant, rfl⟩ | ⟨d, r, hd, spells, rfl⟩
      · cases h
        exact .call tag hvacant hname has
      · cases h
        exact .memberCall tag hd spells hname has
  · intro h
    cases h with
    | literal form value spells =>
      rw [toExpr, node_tagged form (by decide)]
      exact bind_ok.mpr ⟨_, rfl, bind_ok.mpr
        ⟨_, (Node.part_ok _).mpr ⟨_, value, ofPayload_ok.mpr spells⟩, rfl⟩⟩
    | group form expression spells =>
      rw [toExpr, node_tagged form (by decide)]
      exact bind_ok.mpr ⟨_, rfl, bind_ok.mpr ⟨_, ih.part_ok.mpr ⟨_, expression, spells⟩, rfl⟩⟩
    | binary form operator left spellsLeft right spellsRight =>
      rw [toExpr, node_tagged form (by decide)]
      refine bind_ok.mpr ⟨_, rfl, bind_ok.mpr ⟨_, (Node.text_ok _).mpr operator, ?_⟩⟩
      refine bind_ok.mpr ⟨_, ih.part_ok.mpr ⟨_, left, spellsLeft⟩, ?_⟩
      exact bind_ok.mpr ⟨_, ih.part_ok.mpr ⟨_, right, spellsRight⟩, rfl⟩
    | access form receiver named =>
      rw [toExpr, node_tagged form (by decide)]
      refine bind_ok.mpr ⟨_, rfl, bind_ok.mpr ⟨_, ih.part?_ok.mpr (.vacant receiver), ?_⟩⟩
      exact bind_ok.mpr ⟨_, (Node.text_ok _).mpr named, rfl⟩
    | member form receiver spells named =>
      rw [toExpr, node_tagged form (by decide)]
      refine bind_ok.mpr ⟨_, rfl, bind_ok.mpr ⟨_, ih.part?_ok.mpr (.of_eq receiver spells), ?_⟩⟩
      exact bind_ok.mpr ⟨_, (Node.text_ok _).mpr named, rfl⟩
    | call form receiver named arguments =>
      rw [toExpr, node_tagged form (by decide)]
      refine bind_ok.mpr ⟨_, rfl, bind_ok.mpr ⟨_, ih.part?_ok.mpr (.vacant receiver), ?_⟩⟩
      refine bind_ok.mpr ⟨_, (Node.text_ok _).mpr named, ?_⟩
      exact bind_ok.mpr ⟨_, ih.parts_ok.mpr arguments, rfl⟩
    | memberCall form receiver spells named arguments =>
      rw [toExpr, node_tagged form (by decide)]
      refine bind_ok.mpr ⟨_, rfl, bind_ok.mpr ⟨_, ih.part?_ok.mpr (.of_eq receiver spells), ?_⟩⟩
      refine bind_ok.mpr ⟨_, (Node.text_ok _).mpr named, ?_⟩
      exact bind_ok.mpr ⟨_, ih.parts_ok.mpr arguments, rfl⟩

/-- Reading a document is deriving it, if it is whenever the document is an object and smaller
documents have been read. -/
theorem reads_of_object {β : Type} {read : Json → Reading β} {R : Json → β → Prop}
    (object : ∀ es, ReadsSmaller read R es → ∀ b, read (.object es) = .ok b ↔ R (.object es) b)
    (other : ∀ d, (∀ es, d ≠ .object es) → ∀ b, read d ≠ .ok b ∧ ¬ R d b) (d : Json) (b : β) :
    read d = .ok b ↔ R d b := by
  induction h : sizeOf d using Nat.strongRecOn generalizing d b with
  | ind size ih =>
    by_cases hd : ∃ es, d = .object es
    · obtain ⟨es, rfl⟩ := hd
      exact object es (fun v hv b => ih _ (h ▸ hv) v b rfl) b
    · obtain ⟨hread, hR⟩ := other d (not_exists.mp hd) b
      exact iff_of_false hread hR

theorem node_ne_ok {d : Json} (h : ∀ es, d ≠ .object es) {allowed : List String} {n : Node d} :
    node allowed d ≠ .ok n := by
  intro hn
  obtain ⟨form, hform, es, hd, tag⟩ := node_ok hn
  exact h es hd

theorem toExpr_ok (d : Json) (e : Expr) : toExpr d = .ok e ↔ SpellsExpr d e := by
  refine reads_of_object (fun es ih e => toExpr_object_ok ih) (fun d hd e => ⟨?_, ?_⟩) d e
  · intro h
    rw [toExpr] at h
    obtain ⟨n, hn, -⟩ := bind_ok.mp h
    exact node_ne_ok hd hn
  · rintro ⟨⟩ <;> exact hd _ rfl

/-- A statement is read as the grammar says if the smaller documents are. -/
theorem toStmt_object_ok {es : List (Text × Json)} (ih : ReadsSmaller toStmt SpellsStmt es)
    {s : Stmt} : toStmt (.object es) = .ok s ↔ SpellsStmt (.object es) s := by
  have exprs : ReadsSmaller toExpr SpellsExpr es := fun v _ e => toExpr_ok v e
  constructor
  · intro h
    rw [toStmt] at h
    obtain ⟨n, hn, h⟩ := bind_ok.mp h
    obtain ⟨form, hform, es, ⟨⟩, tag⟩ := node_ok hn
    rw [node_tagged tag hform] at hn
    cases hn
    simp only [stmtForms, List.mem_cons, List.not_mem_nil, or_false] at hform
    rcases hform with rfl | rfl | rfl | rfl | rfl | rfl | rfl
    · obtain ⟨e, he, ⟨⟩⟩ := bind_ok.mp h
      obtain ⟨d, hd, he⟩ := exprs.part_ok.mp he
      exact .expression tag hd he
    · obtain ⟨name, hname, h⟩ := bind_ok.mp h
      obtain ⟨typeName, ht, h⟩ := bind_ok.mp h
      obtain ⟨value, hv, ⟨⟩⟩ := bind_ok.mp h
      exact .declaration tag ((Node.text_ok _).mp hname) ((Node.text?_ok _).mp ht)
        (exprs.part?_ok.mp hv)
    · obtain ⟨target, ht, h⟩ := bind_ok.mp h
      obtain ⟨value, hv, ⟨⟩⟩ := bind_ok.mp h
      obtain ⟨dt, hdt, ht⟩ := exprs.part_ok.mp ht
      obtain ⟨dv, hdv, hv⟩ := exprs.part_ok.mp hv
      exact .assignment tag hdt ht hdv hv
    · obtain ⟨condition, hc, h⟩ := bind_ok.mp h
      obtain ⟨thenBody, ht, h⟩ := bind_ok.mp h
      obtain ⟨elseBody, he, ⟨⟩⟩ := bind_ok.mp h
      obtain ⟨d, hd, hc⟩ := exprs.part_ok.mp hc
      exact .conditional tag hd hc (ih.parts_ok.mp ht) (ih.parts_ok.mp he)
    · obtain ⟨name, hname, h⟩ := bind_ok.mp h
      obtain ⟨value, hv, h⟩ := bind_ok.mp h
      obtain ⟨body, hb, ⟨⟩⟩ := bind_ok.mp h
      obtain ⟨d, hd, hv⟩ := exprs.part_ok.mp hv
      exact .forEach tag ((Node.text_ok _).mp hname) hd hv (ih.parts_ok.mp hb)
    · obtain ⟨condition, hc, h⟩ := bind_ok.mp h
      obtain ⟨body, hb, ⟨⟩⟩ := bind_ok.mp h
      obtain ⟨d, hd, hc⟩ := exprs.part_ok.mp hc
      exact .whileLoop tag hd hc (ih.parts_ok.mp hb)
    · obtain ⟨value, hv, ⟨⟩⟩ := bind_ok.mp h
      obtain ⟨d, hd, hv⟩ := exprs.part_ok.mp hv
      exact .returning tag hd hv
  · intro h
    cases h with
    | expression form expression spells =>
      rw [toStmt, node_tagged form (by decide)]
      exact bind_ok.mpr ⟨_, rfl, bind_ok.mpr
        ⟨_, exprs.part_ok.mpr ⟨_, expression, spells⟩, rfl⟩⟩
    | declaration form named typed valued =>
      rw [toStmt, node_tagged form (by decide)]
      refine bind_ok.mpr ⟨_, rfl, bind_ok.mpr ⟨_, (Node.text_ok _).mpr named, ?_⟩⟩
      refine bind_ok.mpr ⟨_, (Node.text?_ok _).mpr typed, ?_⟩
      exact bind_ok.mpr ⟨_, exprs.part?_ok.mpr valued, rfl⟩
    | assignment form receiver spellsTarget valued spellsValue =>
      rw [toStmt, node_tagged form (by decide)]
      refine bind_ok.mpr ⟨_, rfl, bind_ok.mpr
        ⟨_, exprs.part_ok.mpr ⟨_, receiver, spellsTarget⟩, ?_⟩⟩
      exact bind_ok.mpr ⟨_, exprs.part_ok.mpr ⟨_, valued, spellsValue⟩, rfl⟩
    | conditional form tested spells thens elses =>
      rw [toStmt, node_tagged form (by decide)]
      refine bind_ok.mpr ⟨_, rfl, bind_ok.mpr ⟨_, exprs.part_ok.mpr ⟨_, tested, spells⟩, ?_⟩⟩
      refine bind_ok.mpr ⟨_, ih.parts_ok.mpr thens, ?_⟩
      exact bind_ok.mpr ⟨_, ih.parts_ok.mpr elses, rfl⟩
    | forEach form named valued spells statements =>
      rw [toStmt, node_tagged form (by decide)]
      refine bind_ok.mpr ⟨_, rfl, bind_ok.mpr ⟨_, (Node.text_ok _).mpr named, ?_⟩⟩
      refine bind_ok.mpr ⟨_, exprs.part_ok.mpr ⟨_, valued, spells⟩, ?_⟩
      exact bind_ok.mpr ⟨_, ih.parts_ok.mpr statements, rfl⟩
    | whileLoop form tested spells statements =>
      rw [toStmt, node_tagged form (by decide)]
      refine bind_ok.mpr ⟨_, rfl, bind_ok.mpr ⟨_, exprs.part_ok.mpr ⟨_, tested, spells⟩, ?_⟩⟩
      exact bind_ok.mpr ⟨_, ih.parts_ok.mpr statements, rfl⟩
    | returning form valued spells =>
      rw [toStmt, node_tagged form (by decide)]
      exact bind_ok.mpr ⟨_, rfl, bind_ok.mpr ⟨_, exprs.part_ok.mpr ⟨_, valued, spells⟩, rfl⟩⟩

theorem toStmt_ok (d : Json) (s : Stmt) : toStmt d = .ok s ↔ SpellsStmt d s := by
  refine reads_of_object (fun es ih s => toStmt_object_ok ih) (fun d hd s => ⟨?_, ?_⟩) d s
  · intro h
    rw [toStmt] at h
    obtain ⟨n, hn, -⟩ := bind_ok.mp h
    exact node_ne_ok hd hn
  · rintro ⟨⟩ <;> exact hd _ rfl

theorem toField_ok (d : Json) (f : FieldPlace) : toField d = .ok f ↔ SpellsField d f := by
  have exprs {es : List (Text × Json)} : ReadsSmaller toExpr SpellsExpr es :=
    fun v _ e => toExpr_ok v e
  constructor
  · intro h
    rw [toField] at h
    obtain ⟨n, hn, h⟩ := bind_ok.mp h
    obtain ⟨form, hform, es, rfl, tag⟩ := node_ok hn
    rw [node_tagged tag hform] at hn
    cases hn
    cases List.mem_singleton.mp hform
    obtain ⟨name, hname, h⟩ := bind_ok.mp h
    obtain ⟨typeName, ht, h⟩ := bind_ok.mp h
    obtain ⟨value, hv, ⟨⟩⟩ := bind_ok.mp h
    exact .field tag ((Node.text_ok _).mp hname) ((Node.text?_ok _).mp ht) (exprs.part?_ok.mp hv)
  · intro h
    cases h with
    | field form named typed valued =>
      rw [toField, node_tagged form (by decide)]
      refine bind_ok.mpr ⟨_, rfl, bind_ok.mpr ⟨_, (Node.text_ok _).mpr named, ?_⟩⟩
      refine bind_ok.mpr ⟨_, (Node.text?_ok _).mpr typed, ?_⟩
      exact bind_ok.mpr ⟨_, exprs.part?_ok.mpr valued, rfl⟩

theorem toMethod_ok (d : Json) (m : MethodPlace) : toMethod d = .ok m ↔ SpellsMethod d m := by
  have stmts {es : List (Text × Json)} : ReadsSmaller toStmt SpellsStmt es :=
    fun v _ s => toStmt_ok v s
  constructor
  · intro h
    rw [toMethod] at h
    obtain ⟨n, hn, h⟩ := bind_ok.mp h
    obtain ⟨form, hform, es, rfl, tag⟩ := node_ok hn
    rw [node_tagged tag hform] at hn
    cases hn
    cases List.mem_singleton.mp hform
    obtain ⟨parameters, hps, h⟩ := bind_ok.mp h
    obtain ⟨types, hts, h⟩ := bind_ok.mp h
    by_cases paired : parameters.length = types.length
    · rw [if_neg (not_not.mpr paired)] at h
      obtain ⟨name, hname, h⟩ := bind_ok.mp h
      obtain ⟨returnTypeName, hr, h⟩ := bind_ok.mp h
      obtain ⟨body, hb, ⟨⟩⟩ := bind_ok.mp h
      exact .method tag ((Node.text_ok _).mp hname) ((Node.texts_ok _).mp hps)
        ((Node.texts_ok _).mp hts) paired ((Node.text?_ok _).mp hr) (stmts.parts_ok.mp hb)
    · rw [if_pos paired] at h
      obtain ⟨name, -, ⟨⟩⟩ := bind_ok.mp h
  · intro h
    cases h with
    | method form named taking typed paired answering statements =>
      rw [toMethod, node_tagged form (by decide)]
      refine bind_ok.mpr ⟨_, rfl, bind_ok.mpr ⟨_, (Node.texts_ok _).mpr taking, ?_⟩⟩
      refine bind_ok.mpr ⟨_, (Node.texts_ok _).mpr typed, ?_⟩
      rw [if_neg (not_not.mpr paired)]
      refine bind_ok.mpr ⟨_, (Node.text_ok _).mpr named, ?_⟩
      refine bind_ok.mpr ⟨_, (Node.text?_ok _).mpr answering, ?_⟩
      exact bind_ok.mpr ⟨_, stmts.parts_ok.mpr statements, rfl⟩

/-- **The reader reads what the grammar derives**, and reads the tree that the document spells. -/
theorem toSource_ok (d : Json) (s : Source) : toSource d = .ok s ↔ SpellsSource d s := by
  have fields {es : List (Text × Json)} : ReadsSmaller toField SpellsField es :=
    fun v _ f => toField_ok v f
  have methods {es : List (Text × Json)} : ReadsSmaller toMethod SpellsMethod es :=
    fun v _ m => toMethod_ok v m
  constructor
  · intro h
    rw [toSource] at h
    obtain ⟨n, hn, h⟩ := bind_ok.mp h
    obtain ⟨form, hform, es, rfl, tag⟩ := node_ok hn
    rw [node_tagged tag hform] at hn
    cases hn
    cases List.mem_singleton.mp hform
    obtain ⟨fs, hfs, h⟩ := bind_ok.mp h
    obtain ⟨ms, hms, ⟨⟩⟩ := bind_ok.mp h
    exact .source tag (fields.parts_ok.mp hfs) (methods.parts_ok.mp hms)
  · intro h
    cases h with
    | source form fielded methodical =>
      rw [toSource, node_tagged form (by decide)]
      refine bind_ok.mpr ⟨_, rfl, bind_ok.mpr ⟨_, fields.parts_ok.mpr fielded, ?_⟩⟩
      exact bind_ok.mpr ⟨_, methods.parts_ok.mpr methodical, rfl⟩

end Parlance.Document
