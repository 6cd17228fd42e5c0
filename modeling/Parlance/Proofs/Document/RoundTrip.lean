/-
A tree is read back from its document.

Whatever a tree that was read has become, its document can be written, and spells the tree
as it was read: every part stands under the key that the grammar asks for, and the annotations
under keys of which the grammar asks nothing.  Numerals are the only parts that writing could
lose, and they are read as the numbers they show.

The tree that is read back has no annotations, so that its document differs from the first one
in them alone.
-/
import Parlance.Document.Writer
import Parlance.Program
import Parlance.Proofs.Document.Numerals
import Parlance.Proofs.Document.Reading
import Parlance.Proofs.Checking.Bare

namespace Parlance.Document

/-! ### Documents without annotations -/

/-- The keys under which the annotations of a form stand. -/
def findings (form : Form) : List Text :=
  (form.parts.filter fun part => part.2 == .finding).map fun part => part.1

/-- The keys of the annotations of a node, by its tag. -/
def findingKeys (entries : List (Text × Json)) : List Text :=
  match Json.get? "_type" entries with
  | some (.string tag) => ((tag.toString?.bind Form.ofName?).map findings).getD []
  | _ => []

mutual

/-- A document with all annotation entries null. -/
def unannotated : Json → Json
  | .array items => .array (unannotatedItems items)
  | .object entries => .object (unannotatedEntries (findingKeys entries) entries)
  | d => d

/-- The items of a list with all annotation entries null. -/
def unannotatedItems : List Json → List Json
  | [] => []
  | d :: ds => unannotated d :: unannotatedItems ds

/-- The entries of a node, null under the given keys. -/
def unannotatedEntries (keys : List Text) : List (Text × Json) → List (Text × Json)
  | [] => []
  | (key, d) :: rest =>
    (key, if keys.contains key then .null else unannotated d) :: unannotatedEntries keys rest

end

theorem unannotated_text? (t : Option Text) : unannotated (text? t) = text? t := by
  cases t <;> simp [text?, unannotated]

theorem findingKeys_ofForm {form : Form} {parts : List (Text × Json)} :
    findingKeys (("_type", .string form.name) :: parts) = findings form := by
  have named : Form.ofName? form.name = some form := by cases form <;> decide
  simp [findingKeys, Json.get?, Text.toString?, named]

theorem unannotated_ofForm {form : Form} {parts : List (Text × Json)} :
    unannotated (ofForm form parts)
      = ofForm form (unannotatedEntries (findings form) parts) := by
  have tag : (findings form).contains "_type" = false := by cases form <;> decide
  rw [ofForm, unannotated, findingKeys_ofForm, unannotatedEntries, tag]
  simp [unannotated, ofForm]

/-- What a document spells can be written, and the document written spells it again; that of the
bare tree is the same, its annotations null. -/
structure Written {β ω : Type} (write : β → Except WriteFault ω) (R : ω → β → Prop)
    (blank : ω → ω) (tree bare : β) (w : ω) : Prop where
  written : write tree = .ok w
  spells : R w bare
  bare : write bare = .ok (blank w)

/-! ### Literals -/

theorem written_value {p : Json} {v : Value} (h : SpellsValue p v) :
    ∃ w, Written ofValue SpellsValue unannotated v v w := by
  cases h with
  | nil _ => exact ⟨_, rfl, .nil rfl, rfl⟩
  | boolean _ _ => exact ⟨_, rfl, .boolean rfl rfl, rfl⟩
  | @integer _ _ n _ _ numeral =>
    obtain ⟨t, ht⟩ := text?_of_integer? numeral
    have written : ofValue (.integer n) = .ok (payload Builtin.integer.name (.string t)) := by
      rw [ofValue, Value.integerText, ht]
    exact ⟨_, written, .integer rfl rfl (integer?_of_text? ht), written⟩
  | decimal _ _ numeral =>
    have again := Decimal.ofText?_text (Decimal.inRange_of_ofText? numeral)
    exact ⟨_, rfl, .decimal rfl rfl again, rfl⟩
  | character _ _ => exact ⟨_, rfl, .character rfl rfl, rfl⟩
  | string _ _ => exact ⟨_, rfl, .string rfl rfl, rfl⟩

/-! ### Expressions -/

theorem not_spellsExpr_hole {d : Json} {k : Hole} : ¬ SpellsExpr d (.hole k) := by
  rintro ⟨⟩

theorem exprList_eq {ds : List Json} {es : List Expr}
    (h : List.Forall₂ SpellsExpr ds (bareExprs es)) (ws : List Json) :
    exprList es ws = .array ws ∧ exprList (bareExprs es) ws = .array ws := by
  constructor
  · unfold exprList
    split
    · cases h with
      | cons h _ => exact absurd h not_spellsExpr_hole
    · rfl
  · unfold exprList
    split
    · next heq =>
      rw [heq] at h
      cases h with
      | cons h _ => exact absurd h not_spellsExpr_hole
    · rfl

mutual

theorem written_expr : (e : Expr) → {d : Json} → SpellsExpr d e.bare →
    ∃ w, Written ofExpr SpellsExpr unannotated e e.bare w
  | .literal v t, d, h => by
    rw [Expr.bare] at h
    cases h with
    | literal _ _ spells =>
      obtain ⟨w, hw⟩ := written_value spells
      refine ⟨ofForm .literal [("value", w), ("type", type? t)], ?_, ?_, ?_⟩
      · rw [ofExpr, hw.written]
        rfl
      · exact .literal rfl rfl hw.spells
      · rw [Expr.bare, ofExpr, hw.bare, unannotated_ofForm]
        rfl
  | .group e t, d, h => by
    rw [Expr.bare] at h
    cases h with
    | group _ _ spells =>
      obtain ⟨w, hw⟩ := written_expr e spells
      refine ⟨ofForm .group [("expression", w), ("type", type? t)], ?_, ?_, ?_⟩
      · rw [ofExpr, hw.written]
        rfl
      · exact .group rfl rfl hw.spells
      · rw [Expr.bare, ofExpr, hw.bare, unannotated_ofForm]
        rfl
  | .binary op l r t, d, h => by
    rw [Expr.bare] at h
    cases h with
    | @binary _ op _ _ _ _ _ _ _ spellsLeft _ spellsRight =>
      obtain ⟨wl, hl⟩ := written_expr l spellsLeft
      obtain ⟨wr, hr⟩ := written_expr r spellsRight
      refine ⟨ofForm .binary [("operator", .string op), ("left", wl), ("right", wr),
        ("type", type? t)], ?_, ?_, ?_⟩
      · rw [ofExpr, hl.written, hr.written]
        rfl
      · exact .binary rfl rfl rfl hl.spells rfl hr.spells
      · rw [Expr.bare, ofExpr, hl.bare, hr.bare, unannotated_ofForm]
        rfl
  | .access name v t, d, h => by
    rw [Expr.bare] at h
    cases h with
    | @access _ name _ _ _ =>
      refine ⟨ofForm .access [("receiver", .null), ("name", .string name), ("variable", bound? v),
        ("type", type? t)], rfl, ?_, ?_⟩
      · exact .access rfl (.inr rfl) rfl
      · rw [Expr.bare, ofExpr, unannotated_ofForm]
        rfl
  | .member receiver name v t, d, h => by
    rw [Expr.bare] at h
    cases h with
    | @member _ name _ _ _ _ spells _ =>
      obtain ⟨w, hw⟩ := written_expr receiver spells
      refine ⟨ofForm .access [("receiver", w), ("name", .string name), ("variable", bound? v),
        ("type", type? t)], ?_, ?_, ?_⟩
      · rw [ofExpr, hw.written]
        rfl
      · exact .member rfl rfl hw.spells rfl
      · rw [Expr.bare, ofExpr, hw.bare, unannotated_ofForm]
        rfl
  | .call name arguments f t, d, h => by
    rw [Expr.bare] at h
    cases h with
    | @call _ name _ _ _ _ spells =>
      obtain ⟨ds, hds⟩ := spells.exists_forall₂
      obtain ⟨ws, hws⟩ := written_exprs arguments hds
      refine ⟨ofForm .call [("receiver", .null), ("name", .string name), ("arguments", .array ws),
        ("function", callee? f), ("type", type? t)], ?_, ?_, ?_⟩
      · rw [ofExpr, hws.written]
        simp only [bind, Except.bind, (exprList_eq hds ws).1]
        rfl
      · exact .call rfl (.inr rfl) rfl (.items hws.spells)
      · rw [Expr.bare, ofExpr, hws.bare, unannotated_ofForm]
        simp only [bind, Except.bind, (exprList_eq hds _).2]
        rfl
  | .memberCall receiver name arguments f t, d, h => by
    rw [Expr.bare] at h
    cases h with
    | @memberCall _ name _ _ _ _ _ spells _ spellsAll =>
      obtain ⟨w, hw⟩ := written_expr receiver spells
      obtain ⟨ds, hds⟩ := spellsAll.exists_forall₂
      obtain ⟨ws, hws⟩ := written_exprs arguments hds
      refine ⟨ofForm .call [("receiver", w), ("name", .string name), ("arguments", .array ws),
        ("function", callee? f), ("type", type? t)], ?_, ?_, ?_⟩
      · rw [ofExpr, hw.written, hws.written]
        simp only [bind, Except.bind, (exprList_eq hds ws).1]
        rfl
      · exact .memberCall rfl rfl hw.spells rfl (.items hws.spells)
      · rw [Expr.bare, ofExpr, hw.bare, hws.bare, unannotated_ofForm]
        simp only [bind, Except.bind, (exprList_eq hds _).2]
        rfl
  | .hole k, d, h => absurd h not_spellsExpr_hole

theorem written_exprs : (es : List Expr) → {ds : List Json} →
    List.Forall₂ SpellsExpr ds (bareExprs es) →
    ∃ ws, Written ofExprs (List.Forall₂ SpellsExpr) unannotatedItems es (bareExprs es) ws
  | [], _, _ => ⟨[], rfl, .nil, rfl⟩
  | e :: es, _, h => by
    rw [bareExprs] at h
    cases h with
    | cons he hes =>
      obtain ⟨w, hw⟩ := written_expr e he
      obtain ⟨ws, hws⟩ := written_exprs es hes
      refine ⟨w :: ws, ?_, .cons hw.spells hws.spells, ?_⟩
      · rw [ofExprs, hw.written, hws.written]
        rfl
      · rw [bareExprs, ofExprs, hw.bare, hws.bare]
        rfl

end

theorem written_expr? {e : Option Expr} {place : Option Json}
    (h : Optionally SpellsExpr place (e.map Expr.bare)) :
    ∃ w, ofExpr? e = .ok w ∧ Optionally SpellsExpr (some w) (e.map Expr.bare) ∧
      ofExpr? (e.map Expr.bare) = .ok (unannotated w) := by
  cases e with
  | none => exact ⟨.null, rfl, .vacant (.inr rfl), rfl⟩
  | some e =>
    obtain ⟨w, hw⟩ : ∃ w, Written ofExpr SpellsExpr unannotated e e.bare w := by
      cases h with
      | given h => exact written_expr e h
    exact ⟨w, hw.written, .given hw.spells, hw.bare⟩

theorem spells_text? (t : Option Text) : Optionally IsText (some (text? t)) t := by
  cases t with
  | none => exact .vacant (.inr rfl)
  | some t => exact .given (.string t)

/-! ### Statements -/

theorem not_spellsStmt_hole {d : Json} {k : Hole} : ¬ SpellsStmt d (.hole k) := by
  rintro ⟨⟩

theorem stmtList_eq {ds : List Json} {ss : List Stmt}
    (h : List.Forall₂ SpellsStmt ds (bareStmts ss)) (ws : List Json) :
    stmtList ss ws = .array ws ∧ stmtList (bareStmts ss) ws = .array ws := by
  constructor
  · unfold stmtList
    split
    · cases h with
      | cons h _ => exact absurd h not_spellsStmt_hole
    · rfl
  · unfold stmtList
    split
    · next heq =>
      rw [heq] at h
      cases h with
      | cons h _ => exact absurd h not_spellsStmt_hole
    · rfl

mutual

theorem written_stmt : (s : Stmt) → {d : Json} → SpellsStmt d s.bare →
    ∃ w, Written ofStmt SpellsStmt unannotated s s.bare w
  | .expression e, d, h => by
    rw [Stmt.bare] at h
    cases h with
    | expression _ _ spells =>
      obtain ⟨w, hw⟩ := written_expr e spells
      refine ⟨ofForm .expression [("expression", w)], ?_, ?_, ?_⟩
      · rw [ofStmt, hw.written]
        rfl
      · exact .expression rfl rfl hw.spells
      · rw [Stmt.bare, ofStmt, hw.bare, unannotated_ofForm]
        rfl
  | .declaration name typeName value v, d, h => by
    rw [Stmt.bare] at h
    cases h with
    | @declaration _ name _ _ _ _ _ valued =>
      obtain ⟨w, hw, spells, hbare⟩ := written_expr? valued
      refine ⟨ofForm .declaration [("name", .string name), ("type_name", text? typeName),
        ("value", w), ("variable", bound? v)], ?_, ?_, ?_⟩
      · rw [ofStmt, hw]
        rfl
      · exact .declaration rfl rfl (spells_text? typeName) spells
      · rw [Stmt.bare, ofStmt, hbare, unannotated_ofForm]
        cases typeName <;> rfl
  | .assignment target value, d, h => by
    rw [Stmt.bare] at h
    cases h with
    | assignment _ _ spellsTarget _ spellsValue =>
      obtain ⟨wt, ht⟩ := written_expr target spellsTarget
      obtain ⟨wv, hv⟩ := written_expr value spellsValue
      refine ⟨ofForm .assignment [("receiver", wt), ("value", wv)], ?_, ?_, ?_⟩
      · rw [ofStmt, ht.written, hv.written]
        rfl
      · exact .assignment rfl rfl ht.spells rfl hv.spells
      · rw [Stmt.bare, ofStmt, ht.bare, hv.bare, unannotated_ofForm]
        rfl
  | .conditional condition thenBody elseBody, d, h => by
    rw [Stmt.bare] at h
    cases h with
    | conditional _ _ spells thens elses =>
      obtain ⟨w, hw⟩ := written_expr condition spells
      obtain ⟨dts, hdts⟩ := thens.exists_forall₂
      obtain ⟨des, hdes⟩ := elses.exists_forall₂
      obtain ⟨wts, hwts⟩ := written_stmts thenBody hdts
      obtain ⟨wes, hwes⟩ := written_stmts elseBody hdes
      refine ⟨ofForm .conditional [("condition", w), ("then_statements", .array wts),
        ("else_statements", .array wes)], ?_, ?_, ?_⟩
      · rw [ofStmt, hw.written, hwts.written, hwes.written]
        simp only [bind, Except.bind, (stmtList_eq hdts wts).1, (stmtList_eq hdes wes).1]
        rfl
      · exact .conditional rfl rfl hw.spells (.items hwts.spells) (.items hwes.spells)
      · rw [Stmt.bare, ofStmt, hw.bare, hwts.bare, hwes.bare, unannotated_ofForm]
        simp only [bind, Except.bind, (stmtList_eq hdts _).2, (stmtList_eq hdes _).2]
        rfl
  | .forEach name value body, d, h => by
    rw [Stmt.bare] at h
    cases h with
    | @forEach _ name _ _ _ _ _ _ spells statements =>
      obtain ⟨w, hw⟩ := written_expr value spells
      obtain ⟨ds, hds⟩ := statements.exists_forall₂
      obtain ⟨ws, hws⟩ := written_stmts body hds
      refine ⟨ofForm .forEach [("name", .string name), ("value", w), ("statements", .array ws)],
        ?_, ?_, ?_⟩
      · rw [ofStmt, hw.written, hws.written]
        simp only [bind, Except.bind, (stmtList_eq hds ws).1]
        rfl
      · exact .forEach rfl rfl rfl hw.spells (.items hws.spells)
      · rw [Stmt.bare, ofStmt, hw.bare, hws.bare, unannotated_ofForm]
        simp only [bind, Except.bind, (stmtList_eq hds _).2]
        rfl
  | .whileLoop condition body, d, h => by
    rw [Stmt.bare] at h
    cases h with
    | whileLoop _ _ spells statements =>
      obtain ⟨w, hw⟩ := written_expr condition spells
      obtain ⟨ds, hds⟩ := statements.exists_forall₂
      obtain ⟨ws, hws⟩ := written_stmts body hds
      refine ⟨ofForm .whileLoop [("condition", w), ("statements", .array ws)], ?_, ?_, ?_⟩
      · rw [ofStmt, hw.written, hws.written]
        simp only [bind, Except.bind, (stmtList_eq hds ws).1]
        rfl
      · exact .whileLoop rfl rfl hw.spells (.items hws.spells)
      · rw [Stmt.bare, ofStmt, hw.bare, hws.bare, unannotated_ofForm]
        simp only [bind, Except.bind, (stmtList_eq hds _).2]
        rfl
  | .returning value, d, h => by
    rw [Stmt.bare] at h
    cases h with
    | returning _ _ spells =>
      obtain ⟨w, hw⟩ := written_expr value spells
      refine ⟨ofForm .returning [("value", w)], ?_, ?_, ?_⟩
      · rw [ofStmt, hw.written]
        rfl
      · exact .returning rfl rfl hw.spells
      · rw [Stmt.bare, ofStmt, hw.bare, unannotated_ofForm]
        rfl
  | .hole k, d, h => absurd h not_spellsStmt_hole

theorem written_stmts : (ss : List Stmt) → {ds : List Json} →
    List.Forall₂ SpellsStmt ds (bareStmts ss) →
    ∃ ws, Written ofStmts (List.Forall₂ SpellsStmt) unannotatedItems ss (bareStmts ss) ws
  | [], _, _ => ⟨[], rfl, .nil, rfl⟩
  | s :: ss, _, h => by
    rw [bareStmts] at h
    cases h with
    | cons hs hss =>
      obtain ⟨w, hw⟩ := written_stmt s hs
      obtain ⟨ws, hws⟩ := written_stmts ss hss
      refine ⟨w :: ws, ?_, .cons hw.spells hws.spells, ?_⟩
      · rw [ofStmts, hw.written, hws.written]
        rfl
      · rw [bareStmts, ofStmts, hw.bare, hws.bare]
        rfl

end

/-! ### Sources -/

theorem written_fieldPlace {p : FieldPlace} {d : Json} (h : SpellsField d p.bare) :
    ∃ w, Written ofFieldPlace SpellsField unannotated p p.bare w := by
  cases p with
  | hole k => cases h
  | declaration f => cases h
  | field f =>
    obtain ⟨name, typeName, value, bound⟩ := f
    rw [FieldPlace.bare, Field.bare] at h
    cases h with
    | @field _ name _ _ _ _ _ valued =>
      obtain ⟨w, hw, spells, hbare⟩ := written_expr? valued
      refine ⟨ofForm .field [("name", .string name), ("type_name", text? typeName),
        ("value", w), ("variable", bound? bound)], ?_, ?_, ?_⟩
      · rw [ofFieldPlace, ofField, hw]
        rfl
      · exact .field rfl rfl (spells_text? typeName) spells
      · rw [FieldPlace.bare, Field.bare, ofFieldPlace, ofField, hbare, unannotated_ofForm]
        cases typeName <;> rfl

theorem spells_names (ts : List Text) : Listed IsText (some (names (ts.map some))) ts := by
  refine .items ?_
  induction ts with
  | nil => exact .nil
  | cons t ts ih => exact .cons (.string t) ih

theorem unannotated_names (ns : List Name) : unannotated (names ns) = names ns := by
  have items : unannotatedItems (ns.map text?) = ns.map text? := by
    induction ns with
    | nil => rfl
    | cons n ns ih => rw [List.map_cons, unannotatedItems, unannotated_text?, ih]
  rw [names, unannotated, items]

theorem written_methodPlace {p : MethodPlace} {d : Json} (h : SpellsMethod d p.bare) :
    ∃ w, Written ofMethodPlace SpellsMethod unannotated p p.bare w := by
  cases p with
  | hole k => cases h
  | untyped m => cases h
  | method m =>
    obtain ⟨name, parameters, types, returnTypeName, body, bound⟩ := m
    rw [MethodPlace.bare, Method.bare] at h
    cases h with
    | @method _ name parameters types _ _ _ _ _ _ paired _ statements =>
      obtain ⟨ds, hds⟩ := statements.exists_forall₂
      obtain ⟨ws, hws⟩ := written_stmts body hds
      refine ⟨ofForm .method [("name", .string name), ("parameters", names (parameters.map some)),
        ("parameter_type_names", names (types.map some)),
        ("return_type_name", text? returnTypeName), ("statements", .array ws),
        ("function", callee? bound)], ?_, ?_, ?_⟩
      · rw [ofMethodPlace, ofMethod, hws.written]
        simp only [bind, Except.bind, (stmtList_eq hds ws).1]
        rfl
      · exact .method rfl rfl (spells_names parameters) (spells_names types) paired
          (spells_text? returnTypeName) (.items hws.spells)
      · rw [MethodPlace.bare, Method.bare, ofMethodPlace, ofMethod, hws.bare, unannotated_ofForm]
        simp only [bind, Except.bind, (stmtList_eq hds _).2]
        change _ = Except.ok (ofForm .method [("name", .string name),
          ("parameters", unannotated (names (parameters.map some))),
          ("parameter_type_names", unannotated (names (types.map some))),
          ("return_type_name", unannotated (text? returnTypeName)),
          ("statements", .array (unannotatedItems ws)), ("function", .null)])
        rw [unannotated_names, unannotated_names, unannotated_text?]
        rfl

/-- Places written one after the other. -/
theorem written_places {β : Type} {write : β → Except WriteFault Json} {R : Json → β → Prop}
    {bare : β → β} (place : ∀ p d, R d (bare p) → ∃ w, Written write R unannotated p (bare p) w)
    {ps : List β} {ds : List Json} (h : List.Forall₂ R ds (ps.map bare)) :
    ∃ ws, Written (List.mapM write) (List.Forall₂ R) unannotatedItems ps (ps.map bare) ws := by
  induction ps generalizing ds with
  | nil => exact ⟨[], rfl, .nil, rfl⟩
  | cons p ps ih =>
    rw [List.map_cons] at h
    cases h with
    | cons hp hps =>
      obtain ⟨w, hw⟩ := place p _ hp
      obtain ⟨ws, hws⟩ := ih hps
      refine ⟨w :: ws, ?_, .cons hw.spells hws.spells, ?_⟩
      · rw [List.mapM_cons, hw.written, hws.written]
        rfl
      · rw [List.map_cons, List.mapM_cons, hw.bare, hws.bare]
        rfl

theorem ofFields_eq {ps : List FieldPlace} (h : ps ≠ [.hole .unlisted]) :
    ofFields ps = (ps.mapM ofFieldPlace).map .array := by
  unfold ofFields
  split
  · exact absurd rfl h
  · rfl

theorem ofMethods_eq {ps : List MethodPlace} (h : ps ≠ [.hole .unlisted]) :
    ofMethods ps = (ps.mapM ofMethodPlace).map .array := by
  unfold ofMethods
  split
  · exact absurd rfl h
  · rfl

theorem written_fields {ps : List FieldPlace} {ds : List Json}
    (h : List.Forall₂ SpellsField ds (ps.map FieldPlace.bare)) :
    ∃ w, Written ofFields (fun w => Listed SpellsField (some w)) unannotated ps
      (ps.map FieldPlace.bare) w := by
  obtain ⟨ws, hws⟩ := written_places (fun _ _ => written_fieldPlace) h
  have bareListed : ps.map FieldPlace.bare ≠ [.hole .unlisted] := by
    intro heq
    rw [heq] at h
    cases h with
    | cons h _ => cases h
  have listed : ps ≠ [.hole .unlisted] := by
    rintro rfl
    exact bareListed rfl
  refine ⟨.array ws, ?_, .items hws.spells, ?_⟩
  · rw [ofFields_eq listed, hws.written]
    rfl
  · rw [ofFields_eq bareListed, hws.bare]
    rfl

theorem written_methods {ps : List MethodPlace} {ds : List Json}
    (h : List.Forall₂ SpellsMethod ds (ps.map MethodPlace.bare)) :
    ∃ w, Written ofMethods (fun w => Listed SpellsMethod (some w)) unannotated ps
      (ps.map MethodPlace.bare) w := by
  obtain ⟨ws, hws⟩ := written_places (fun _ _ => written_methodPlace) h
  have bareListed : ps.map MethodPlace.bare ≠ [.hole .unlisted] := by
    intro heq
    rw [heq] at h
    cases h with
    | cons h _ => cases h
  have listed : ps ≠ [.hole .unlisted] := by
    rintro rfl
    exact bareListed rfl
  refine ⟨.array ws, ?_, .items hws.spells, ?_⟩
  · rw [ofMethods_eq listed, hws.written]
    rfl
  · rw [ofMethods_eq bareListed, hws.bare]
    rfl

theorem written_source {s : Source} {d : Json} (h : SpellsSource d s.bare) :
    ∃ w, Written ofSource SpellsSource unannotated s s.bare w := by
  obtain ⟨fields, methods⟩ := s
  rw [Source.bare] at h
  cases h with
  | source _ fielded methodical =>
    obtain ⟨dfs, hdfs⟩ := fielded.exists_forall₂
    obtain ⟨dms, hdms⟩ := methodical.exists_forall₂
    obtain ⟨wfs, hf⟩ := written_fields hdfs
    obtain ⟨wms, hm⟩ := written_methods hdms
    refine ⟨ofForm .source [("fields", wfs), ("methods", wms)], ?_, ?_, ?_⟩
    · rw [ofSource, hf.written, hm.written]
      rfl
    · exact .source rfl hf.spells hm.spells
    · rw [Source.bare, ofSource, hf.bare, hm.bare, unannotated_ofForm]
      rfl

/-! ### What is read is bare -/

mutual

theorem bare_of_spellsExpr : (e : Expr) → {d : Json} → SpellsExpr d e → e.bare = e
  | .literal v t, d, h => by
    cases h
    rfl
  | .group e t, d, h => by
    cases h with
    | group _ _ spells => rw [Expr.bare, bare_of_spellsExpr e spells]
  | .binary op l r t, d, h => by
    cases h with
    | binary _ _ _ spellsLeft _ spellsRight =>
      rw [Expr.bare, bare_of_spellsExpr l spellsLeft, bare_of_spellsExpr r spellsRight]
  | .access name v t, d, h => by
    cases h
    rfl
  | .member receiver name v t, d, h => by
    cases h with
    | member _ _ spells _ => rw [Expr.bare, bare_of_spellsExpr receiver spells]
  | .call name arguments f t, d, h => by
    cases h with
    | call _ _ _ spells =>
      obtain ⟨ds, hds⟩ := spells.exists_forall₂
      rw [Expr.bare, bare_of_spellsExprs arguments hds]
  | .memberCall receiver name arguments f t, d, h => by
    cases h with
    | memberCall _ _ spells _ spellsAll =>
      obtain ⟨ds, hds⟩ := spellsAll.exists_forall₂
      rw [Expr.bare, bare_of_spellsExpr receiver spells, bare_of_spellsExprs arguments hds]
  | .hole k, d, h => rfl

theorem bare_of_spellsExprs : (es : List Expr) → {ds : List Json} →
    List.Forall₂ SpellsExpr ds es → bareExprs es = es
  | [], _, _ => rfl
  | e :: es, _, h => by
    cases h with
    | cons he hes => rw [bareExprs, bare_of_spellsExpr e he, bare_of_spellsExprs es hes]

end

theorem bare_of_optionally {e : Option Expr} {place : Option Json}
    (h : Optionally SpellsExpr place e) : e.map Expr.bare = e := by
  cases h with
  | vacant _ => rfl
  | given h => exact congrArg some (bare_of_spellsExpr _ h)

mutual

theorem bare_of_spellsStmt : (s : Stmt) → {d : Json} → SpellsStmt d s → s.bare = s
  | .expression e, d, h => by
    cases h with
    | expression _ _ spells => rw [Stmt.bare, bare_of_spellsExpr e spells]
  | .declaration name typeName value v, d, h => by
    cases h with
    | declaration _ _ _ valued => rw [Stmt.bare, bare_of_optionally valued]
  | .assignment target value, d, h => by
    cases h with
    | assignment _ _ spellsTarget _ spellsValue =>
      rw [Stmt.bare, bare_of_spellsExpr target spellsTarget, bare_of_spellsExpr value spellsValue]
  | .conditional condition thenBody elseBody, d, h => by
    cases h with
    | conditional _ _ spells thens elses =>
      obtain ⟨dts, hdts⟩ := thens.exists_forall₂
      obtain ⟨des, hdes⟩ := elses.exists_forall₂
      rw [Stmt.bare, bare_of_spellsExpr condition spells, bare_of_spellsStmts thenBody hdts,
        bare_of_spellsStmts elseBody hdes]
  | .forEach name value body, d, h => by
    cases h with
    | forEach _ _ _ spells statements =>
      obtain ⟨ds, hds⟩ := statements.exists_forall₂
      rw [Stmt.bare, bare_of_spellsExpr value spells, bare_of_spellsStmts body hds]
  | .whileLoop condition body, d, h => by
    cases h with
    | whileLoop _ _ spells statements =>
      obtain ⟨ds, hds⟩ := statements.exists_forall₂
      rw [Stmt.bare, bare_of_spellsExpr condition spells, bare_of_spellsStmts body hds]
  | .returning value, d, h => by
    cases h with
    | returning _ _ spells => rw [Stmt.bare, bare_of_spellsExpr value spells]
  | .hole k, d, h => rfl

theorem bare_of_spellsStmts : (ss : List Stmt) → {ds : List Json} →
    List.Forall₂ SpellsStmt ds ss → bareStmts ss = ss
  | [], _, _ => rfl
  | s :: ss, _, h => by
    cases h with
    | cons hs hss => rw [bareStmts, bare_of_spellsStmt s hs, bare_of_spellsStmts ss hss]

end

theorem bare_of_spellsField {d : Json} {p : FieldPlace} (h : SpellsField d p) : p.bare = p := by
  cases h with
  | field _ _ _ valued => rw [FieldPlace.bare, Field.bare, bare_of_optionally valued]

theorem bare_of_spellsMethod {d : Json} {p : MethodPlace} (h : SpellsMethod d p) : p.bare = p := by
  cases h with
  | method _ _ _ _ _ _ statements =>
    obtain ⟨ds, hds⟩ := statements.exists_forall₂
    rw [MethodPlace.bare, Method.bare, bare_of_spellsStmts _ hds]

theorem bare_of_places {β : Type} {R : Json → β → Prop} {bare : β → β}
    (place : ∀ d p, R d p → bare p = p) {ps : List β} {ds : List Json}
    (h : List.Forall₂ R ds ps) : ps.map bare = ps := by
  induction h with
  | nil => rfl
  | cons hp _ ih => rw [List.map_cons, place _ _ hp, ih]

theorem bare_of_spellsSource {d : Json} {s : Source} (h : SpellsSource d s) : s.bare = s := by
  cases h with
  | source _ fielded methodical =>
    obtain ⟨dfs, hdfs⟩ := fielded.exists_forall₂
    obtain ⟨dms, hdms⟩ := methodical.exists_forall₂
    rw [Source.bare, bare_of_places (fun _ _ => bare_of_spellsField) hdfs,
      bare_of_places (fun _ _ => bare_of_spellsMethod) hdms]

/-! ### There and back -/

/-- **What was read is read back.**  A source that was read, and has been checked since or not,
whatever came of it, can be written; from what is written the source is read as it was, its literals
included; and the document of what is read is the same, its annotations null. -/
theorem read_write_read {d : Json} {s t : Source} (read : toSource d = .ok s)
    (annotated : s.Annotated t) :
    ∃ w, ofSource t = .ok w ∧ toSource w = .ok s ∧
      (toSource w).map ofSource = .ok (.ok (unannotated w)) := by
  have spells := (toSource_ok d s).mp read
  have bare : t.bare = s := annotated.bare_eq.trans (bare_of_spellsSource spells)
  obtain ⟨w, hw⟩ := written_source (bare ▸ spells)
  have again := (toSource_ok w s).mpr (bare ▸ hw.spells)
  have hbare := hw.bare
  rw [bare] at hbare
  exact ⟨w, hw.written, again, by rw [again]; exact congrArg Except.ok hbare⟩

/-- The document of a source with a negative zero and a decimal that keeps two places, where an
integer belongs. -/
def unevenDocument : Json :=
  ofForm .source
    [("fields", .array
      [ofForm .field [("name", .string "zero"), ("value", ofForm .literal
        [("value", payload "Decimal" (.string "-0.0"))])],
       ofForm .field [("name", .string "one"), ("type_name", .string "Integer"),
        ("value", ofForm .literal [("value", payload "Decimal" (.string "1.00"))])]]),
     ("methods", .array
      [ofForm .method [("name", .string "main"), ("return_type_name", .string "Integer"),
        ("remark", .integer 1)]])]

/-- The source that it spells. -/
def uneven : Source where
  fields :=
    [.field ⟨"zero", none, some (.literal (.decimal ⟨true, 0, -1⟩) none), none⟩,
     .field ⟨"one", some "Integer", some (.literal (.decimal ⟨false, 100, -2⟩) none), none⟩]
  methods := [.method ⟨"main", [], [], some "Integer", [], none⟩]

theorem uneven_spelled : SpellsSource unevenDocument uneven := by
  have literal {s : String} {d : Decimal} (h : Decimal.ofText? s = some d) :
      SpellsExpr (ofForm .literal [("value", payload "Decimal" (.string s))])
        (.literal (.decimal d) none) :=
    .literal rfl rfl (.decimal rfl rfl h)
  have zero : Decimal.ofText? "-0.0" = some ⟨true, 0, -1⟩ := by decide +kernel
  have one : Decimal.ofText? "1.00" = some ⟨false, 100, -2⟩ := by decide +kernel
  refine .source rfl (.items (.cons ?_ (.cons ?_ .nil))) (.items (.cons ?_ .nil))
  · exact .field rfl rfl (.vacant (.inl rfl)) (.given (literal zero))
  · exact .field rfl rfl (.given (.string _)) (.given (literal one))
  · exact @SpellsMethod.method _ "main" [] [] _ [] rfl rfl .missing .missing rfl
      (.given (.string _)) .missing

theorem read_write_read_uneven :
    (uneven.analyze Host.none .initial).verdict
        = .error (.check (.notAssignable "Decimal" "Integer")) ∧
      ∃ w, ofSource (uneven.analyze Host.none .initial).tree = .ok w ∧
        toSource w = .ok uneven ∧ (toSource w).map ofSource = .ok (.ok (unannotated w)) :=
  ⟨by decide +kernel, read_write_read ((toSource_ok _ _).mpr uneven_spelled)
    (.checked .read _ _)⟩

end Parlance.Document
