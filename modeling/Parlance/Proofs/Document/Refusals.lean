/-
How the reader refuses.

Every fault of the reader is one of documents, so there is one kind of error.  What could be
missing is its message: the tag of a node, the kind of a literal and its payload are shown in
messages, whatever they are, and an integer that is too long for a text cannot be.  The reader of
JSON takes no such integer, so the value of a text is always refused with a message.  What holds
one was not read from a text, and may be refused with the limit on the texts of integers instead.
-/
import Parlance.Proofs.Document.Reading
import Parlance.Proofs.Document.Shown

namespace Parlance.Document

/-! ### Messages -/

/-- If a fault is found, it has a message. -/
def Explained {β : Type} (r : Reading β) : Prop :=
  ∀ f, r = .error f → f.message?.isSome = true

section Rules

variable {β γ : Type} {r : Reading β} {g : β → Reading γ}

theorem Explained.ok (b : β) : Explained (.ok b : Reading β) := nofun

theorem Explained.error {f : DocumentFault} (h : f.message?.isSome = true) :
    Explained (.error f : Reading β) := by
  rintro _ ⟨⟩
  exact h

theorem Explained.bind (hr : Explained r) (hg : ∀ b, Explained (g b)) : Explained (r >>= g) := by
  intro f hf
  cases r with
  | ok b => exact hg b f hf
  | error f' =>
    cases hf
    exact hr _ rfl

theorem Explained.map {k : β → γ} (hr : Explained r) : Explained (r.map k) := by
  intro f hf
  cases r with
  | ok b => cases hf
  | error f' =>
    cases hf
    exact hr _ rfl

end Rules

/-! ### Parts -/

theorem explained_node {d : Json} (hd : d.Short) (allowed : List String) :
    Explained (node allowed d) := by
  unfold node
  split
  · next entries =>
    split
    · exact .error rfl
    · split
      · exact .ok _
      · exact .error rfl
    · next tag htag hget =>
      have hshown := Json.named?_isSome (Json.ShortEntries.get? hd hget)
      exact .error (by simpa [DocumentFault.message?] using hshown)
  · exact .error rfl

namespace Node

variable {d : Json} (n : Node d) {key : String} {β : Type} {read : Json → Reading β}

theorem short (hd : d.Short) {v : Json} (hv : Json.get? key n.entries = some v) : v.Short := by
  rw [n.isObject] at hd
  exact Json.ShortEntries.get? hd hv

/-- The documents smaller than the node are refused with a message, if they are. -/
def ExplainsSmaller (d : Json) (read : Json → Reading β) : Prop :=
  ∀ v, sizeOf v < sizeOf d → v.Short → Explained (read v)

variable (hd : d.Short) (smaller : ExplainsSmaller d read)
include hd smaller

theorem explained_part : Explained (n.part key fun v _ => read v) := by
  unfold part
  split
  · exact .error rfl
  · next v hv => exact smaller v (n.lt hv) (n.short hd hv)

theorem explained_part? : Explained (n.part? key fun v _ => read v) := by
  unfold part?
  split
  · exact .ok _
  · next v hv =>
    split
    · exact .ok _
    · exact (smaller v (n.lt hv) (n.short hd hv)).map

omit hd smaller in
theorem explained_readAll {size : Nat} : {items : List Json} →
    (small : ∀ v ∈ items, sizeOf v < size) → (∀ v ∈ items, Explained (read v)) →
    Explained (readAll (fun v _ => read v) items small)
  | [], _, _ => .ok _
  | v :: rest, small, h => by
    obtain ⟨hv, hrest⟩ := List.forall_mem_cons.mp h
    exact hv.bind fun b => (explained_readAll _ hrest).bind fun bs => .ok _

theorem explained_parts : Explained (n.parts key fun v _ => read v) := by
  unfold parts
  split
  · exact .ok _
  · next items hget =>
    exact explained_readAll _ fun v hv =>
      smaller v (n.item_lt hget hv) ((n.short hd hget).item hv)
  · exact .error rfl

omit hd smaller

theorem explained_text : Explained (n.text key) := by
  unfold text
  split
  · exact .error rfl
  · exact .ok _
  · exact .error rfl

theorem explained_text? : Explained (n.text? key) := by
  unfold text?
  split
  · exact .ok _
  · exact .ok _
  · exact .ok _
  · exact .error rfl

theorem explained_texts : Explained (n.texts key) := by
  unfold texts
  split
  · exact .ok _
  · split
    · exact .ok _
    · exact .error rfl
  · exact .error rfl

end Node

/-! ### Literals -/

theorem explained_integer (t : Text) : Explained (Literal.integer t) := by
  unfold Literal.integer
  split
  · exact .ok _
  · exact .error rfl

theorem explained_decimal (t : Text) : Explained (Literal.decimal t) := by
  unfold Literal.decimal
  split
  · exact .ok _
  · exact .error rfl

theorem invalidLiteral_explained {kind raw : Json} (hkind : kind.Short) (hraw : raw.Short) :
    (DocumentFault.invalidLiteral kind.named? raw.shown?).message?.isSome = true := by
  obtain ⟨k, hk⟩ := Option.isSome_iff_exists.mp (Json.named?_isSome hkind)
  obtain ⟨r, hr⟩ := Option.isSome_iff_exists.mp ((Json.shown?_isSome raw).mpr hraw)
  rw [hk, hr]
  rfl

theorem explained_ofPayload {p : Json} (hp : p.Short) : Explained (Literal.ofPayload p) := by
  unfold Literal.ofPayload
  split
  case h_2 => exact .error rfl
  next entries =>
  split
  case h_1 => exact .error rfl
  next kind hget =>
  have hkind : kind.Short := Json.ShortEntries.get? hp hget
  have hraw : ((Json.get? "value" entries).getD .null).Short := by
    cases hvalue : Json.get? "value" entries with
    | none => exact trivial
    | some v => exact Json.ShortEntries.get? hp hvalue
  have hinvalid := invalidLiteral_explained hkind hraw
  dsimp only
  split
  · exact .ok _
  · exact .ok _
  · exact explained_integer _
  · exact explained_decimal _
  · split
    · exact .ok _
    · exact .error hinvalid
  · exact .ok _
  · exact .error hinvalid

/-! ### Trees -/

/-- A reader that explains what it refuses whenever it does so for smaller documents does so for
all. -/
theorem explains_of_smaller {β : Type} {read : Json → Reading β}
    (step : ∀ d, d.Short → Node.ExplainsSmaller d read → Explained (read d)) (d : Json)
    (hd : d.Short) : Explained (read d) := by
  induction h : sizeOf d using Nat.strongRecOn generalizing d with
  | ind size ih => exact step d hd fun v hv hshort => ih _ (h ▸ hv) v hshort rfl

theorem explained_toExpr (d : Json) (hd : d.Short) : Explained (toExpr d) := by
  refine explains_of_smaller (fun d hd smaller => ?_) d hd
  rw [toExpr]
  refine (explained_node hd _).bind fun n => ?_
  split
  · refine (n.explained_part hd fun v _ hv => ?_).bind fun v => .ok _
    exact explained_ofPayload hv
  · exact (n.explained_part hd smaller).bind fun e => .ok _
  · refine n.explained_text.bind fun op => ?_
    refine (n.explained_part hd smaller).bind fun l => ?_
    exact (n.explained_part hd smaller).bind fun r => .ok _
  · refine (n.explained_part? hd smaller).bind fun receiver => ?_
    refine n.explained_text.bind fun name => ?_
    split
    · split <;> exact .ok _
    · refine (n.explained_parts hd smaller).bind fun arguments => ?_
      split <;> exact .ok _

theorem explained_toStmt (d : Json) (hd : d.Short) : Explained (toStmt d) := by
  refine explains_of_smaller (fun d hd smaller => ?_) d hd
  have exprs : Node.ExplainsSmaller d toExpr := fun v _ => explained_toExpr v
  rw [toStmt]
  refine (explained_node hd _).bind fun n => ?_
  split
  · exact (n.explained_part hd exprs).bind fun e => .ok _
  · refine n.explained_text.bind fun name => ?_
    refine n.explained_text?.bind fun typeName => ?_
    exact (n.explained_part? hd exprs).bind fun value => .ok _
  · refine (n.explained_part hd exprs).bind fun target => ?_
    exact (n.explained_part hd exprs).bind fun value => .ok _
  · refine (n.explained_part hd exprs).bind fun condition => ?_
    refine (n.explained_parts hd smaller).bind fun thenBody => ?_
    exact (n.explained_parts hd smaller).bind fun elseBody => .ok _
  · refine n.explained_text.bind fun name => ?_
    refine (n.explained_part hd exprs).bind fun value => ?_
    exact (n.explained_parts hd smaller).bind fun body => .ok _
  · refine (n.explained_part hd exprs).bind fun condition => ?_
    exact (n.explained_parts hd smaller).bind fun body => .ok _
  · exact (n.explained_part hd exprs).bind fun value => .ok _

theorem explained_toField (d : Json) (hd : d.Short) : Explained (toField d) := by
  rw [toField]
  refine (explained_node hd _).bind fun n => ?_
  refine n.explained_text.bind fun name => ?_
  refine n.explained_text?.bind fun typeName => ?_
  exact (n.explained_part? hd fun v _ => explained_toExpr v).bind fun value => .ok _

theorem explained_toMethod (d : Json) (hd : d.Short) : Explained (toMethod d) := by
  rw [toMethod]
  refine (explained_node hd _).bind fun n => ?_
  refine n.explained_texts.bind fun parameters => ?_
  refine n.explained_texts.bind fun types => ?_
  split
  · exact n.explained_text.bind fun name => .error rfl
  · refine n.explained_text.bind fun name => ?_
    refine n.explained_text?.bind fun returnTypeName => ?_
    exact (n.explained_parts hd fun v _ => explained_toStmt v).bind fun body => .ok _

/-- Whatever can be shown is refused with a message, if it is. -/
theorem explained_toSource (d : Json) (hd : d.Short) : Explained (toSource d) := by
  rw [toSource]
  refine (explained_node hd _).bind fun n => ?_
  refine (n.explained_parts hd fun v _ => explained_toField v).bind fun fields => ?_
  exact (n.explained_parts hd fun v _ => explained_toMethod v).bind fun methods => .ok _

/-! ### Acceptance and refusal -/

/-- The reading ends in the limit on the texts of integers. -/
def Unshown {β : Type} (r : Reading β) : Prop :=
  ∃ f, r = .error f ∧ (Fault.document f).report = .error .integerText

/-- The limit is met: by every tag that is such an integer. -/
theorem unshown_of_long {n : Int} (h : Number.maxDigits < Number.digitCount n.natAbs) :
    Unshown (toSource (.object [("_type", .integer n)])) := by
  have hnamed : (Json.integer n).named? = none := by
    rw [← Option.not_isSome_iff_eq_none]
    simp [Json.named?, Json.shown?_isSome, Json.Short, Nat.not_le.mpr h]
  have hnode : node ["Source"] (.object [("_type", .integer n)]) =
      .error (.wrongNode ["Source"] (Json.integer n).named?) := rfl
  refine ⟨.wrongNode ["Source"] none, ?_, rfl⟩
  rw [toSource, hnode, hnamed]
  rfl

end Parlance.Document
