/-
The grammar of documents.

A document spells a tree when it is derived from the productions below, one to each form of
node.  They ask of an object only what stands under the keys that its form has, so that entries
under other keys are free.  A part is required, or may be missing or null, or is a list that
may be missing but not null.

A production names the tree beside the document.  What a document spells has no annotations.
-/
import Parlance.Literal
import Parlance.Syntax.Basic
import Mathlib.Data.List.Forall2

namespace Parlance.Document

/-! ### The parts of a node -/

/-- The object names its form. -/
def Tagged (form : String) (entries : List (Text × Json)) : Prop :=
  Json.get? "_type" entries = some (.string form)

/-- Nothing stands in a place, or null. -/
def Vacant (place : Option Json) : Prop :=
  place = none ∨ place = some .null

/-- A part that may be missing or null. -/
inductive Optionally {β : Type} (R : Json → β → Prop) : Option Json → Option β → Prop
  | vacant {place : Option Json} (h : Vacant place) : Optionally R place none
  | given {d : Json} {b : β} (h : R d b) : Optionally R (some d) (some b)

/-- A list that may be missing, and is empty then. -/
inductive Listed {β : Type} (R : Json → β → Prop) : Option Json → List β → Prop
  | missing : Listed R none []
  | items {ds : List Json} {bs : List β} (h : List.Forall₂ R ds bs) :
      Listed R (some (.array ds)) bs

section Places

variable {β : Type} {R : Json → β → Prop} {d : Json} {ds : List Json} {o : Option β} {bs : List β}

theorem optionally_none : Optionally R none o ↔ o = none := by
  constructor
  · rintro ⟨⟩
    rfl
  · rintro rfl
    exact .vacant (.inl rfl)

theorem optionally_null (h : ∀ b, ¬ R .null b) : Optionally R (some .null) o ↔ o = none := by
  constructor
  · intro ho
    cases ho with
    | vacant _ => rfl
    | given hb => exact absurd hb (h _)
  · rintro rfl
    exact .vacant (.inr rfl)

theorem optionally_some (h : d ≠ .null) :
    Optionally R (some d) o ↔ ∃ b, R d b ∧ o = some b := by
  constructor
  · intro ho
    cases ho with
    | vacant hv =>
      rcases hv with hv | hv
      · cases hv
      · cases hv
        exact absurd rfl h
    | given hb => exact ⟨_, hb, rfl⟩
  · rintro ⟨b, hb, rfl⟩
    exact .given hb

theorem Optionally.of_eq {place : Option Json} {b : β} (h : place = some d) (hb : R d b) :
    Optionally R place (some b) :=
  h ▸ .given hb

theorem Optionally.cases_place {place : Option Json} (h : Optionally R place o) :
    (Vacant place ∧ o = none) ∨ ∃ d b, place = some d ∧ R d b ∧ o = some b := by
  cases h with
  | vacant h => exact .inl ⟨h, rfl⟩
  | given h => exact .inr ⟨_, _, rfl, h, rfl⟩

theorem listed_none : Listed R none bs ↔ bs = [] := by
  constructor
  · rintro ⟨⟩
    rfl
  · rintro rfl
    exact .missing

theorem Listed.exists_forall₂ {place : Option Json} (h : Listed R place bs) :
    ∃ ds, List.Forall₂ R ds bs := by
  cases h with
  | missing => exact ⟨[], .nil⟩
  | items h => exact ⟨_, h⟩

theorem listed_array : Listed R (some (.array ds)) bs ↔ List.Forall₂ R ds bs := by
  constructor
  · rintro ⟨⟩
    assumption
  · exact .items

theorem not_listed (h : ∀ ds, d ≠ .array ds) : ¬ Listed R (some d) bs := by
  rintro ⟨⟩
  exact h _ rfl

end Places

/-- A JSON string. -/
inductive IsText : Json → Text → Prop
  | string (t : Text) : IsText (.string t) t

/-! ### Literals -/

/-- The payload names the kind of its value. -/
def OfKind (kind : Builtin) (entries : List (Text × Json)) : Prop :=
  Json.get? "kind" entries = some (.string kind.name)

/-- A payload spells a value: the numeral of a number is one that its kind reads, and the text
of a character is a single code point. -/
inductive SpellsValue : Json → Value → Prop
  | nil {es : List (Text × Json)} (kind : OfKind .nil es) : SpellsValue (.object es) .nil
  | boolean {es : List (Text × Json)} {b : Bool} (kind : OfKind .boolean es)
      (value : Json.get? "value" es = some (.bool b)) : SpellsValue (.object es) (.boolean b)
  | integer {es : List (Text × Json)} {s : String} {n : Int} (kind : OfKind .integer es)
      (value : Json.get? "value" es = some (.string s)) (numeral : Number.integer? s = some n) :
      SpellsValue (.object es) (.integer n)
  | decimal {es : List (Text × Json)} {s : String} {d : Decimal} (kind : OfKind .decimal es)
      (value : Json.get? "value" es = some (.string s)) (numeral : Decimal.ofText? s = some d) :
      SpellsValue (.object es) (.decimal d)
  | character {es : List (Text × Json)} {c : CodePoint} (kind : OfKind .character es)
      (value : Json.get? "value" es = some (.string (Text.singleton c))) :
      SpellsValue (.object es) (.character c)
  | string {es : List (Text × Json)} {t : Text} (kind : OfKind .string es)
      (value : Json.get? "value" es = some (.string t)) : SpellsValue (.object es) (.string t)

/-! ### Trees -/

/-- A document spells an expression. -/
inductive SpellsExpr : Json → Expr → Prop
  | literal {es : List (Text × Json)} {p : Json} {v : Value} (form : Tagged "Literal" es)
      (value : Json.get? "value" es = some p) (spells : SpellsValue p v) :
      SpellsExpr (.object es) (.literal v none)
  | group {es : List (Text × Json)} {d : Json} {e : Expr} (form : Tagged "Group" es)
      (expression : Json.get? "expression" es = some d) (spells : SpellsExpr d e) :
      SpellsExpr (.object es) (.group e none)
  | binary {es : List (Text × Json)} {op : Text} {dl dr : Json} {l r : Expr}
      (form : Tagged "Binary" es) (operator : Json.get? "operator" es = some (.string op))
      (left : Json.get? "left" es = some dl) (spellsLeft : SpellsExpr dl l)
      (right : Json.get? "right" es = some dr) (spellsRight : SpellsExpr dr r) :
      SpellsExpr (.object es) (.binary op l r none)
  | access {es : List (Text × Json)} {name : Text} (form : Tagged "Access" es)
      (receiver : Vacant (Json.get? "receiver" es))
      (named : Json.get? "name" es = some (.string name)) :
      SpellsExpr (.object es) (.access name none none)
  | member {es : List (Text × Json)} {name : Text} {d : Json} {r : Expr}
      (form : Tagged "Access" es) (receiver : Json.get? "receiver" es = some d)
      (spells : SpellsExpr d r) (named : Json.get? "name" es = some (.string name)) :
      SpellsExpr (.object es) (.member r name none none)
  | call {es : List (Text × Json)} {name : Text} {as : List Expr} (form : Tagged "Call" es)
      (receiver : Vacant (Json.get? "receiver" es))
      (named : Json.get? "name" es = some (.string name))
      (arguments : Listed SpellsExpr (Json.get? "arguments" es) as) :
      SpellsExpr (.object es) (.call name as none none)
  | memberCall {es : List (Text × Json)} {name : Text} {d : Json} {r : Expr} {as : List Expr}
      (form : Tagged "Call" es) (receiver : Json.get? "receiver" es = some d)
      (spells : SpellsExpr d r) (named : Json.get? "name" es = some (.string name))
      (arguments : Listed SpellsExpr (Json.get? "arguments" es) as) :
      SpellsExpr (.object es) (.memberCall r name as none none)

/-- A document spells a statement. -/
inductive SpellsStmt : Json → Stmt → Prop
  | expression {es : List (Text × Json)} {d : Json} {e : Expr} (form : Tagged "ExpressionStmt" es)
      (expression : Json.get? "expression" es = some d) (spells : SpellsExpr d e) :
      SpellsStmt (.object es) (.expression e)
  | declaration {es : List (Text × Json)} {name : Text} {typeName : Option Text}
      {value : Option Expr} (form : Tagged "Declaration" es)
      (named : Json.get? "name" es = some (.string name))
      (typed : Optionally IsText (Json.get? "type_name" es) typeName)
      (valued : Optionally SpellsExpr (Json.get? "value" es) value) :
      SpellsStmt (.object es) (.declaration name typeName value none)
  | assignment {es : List (Text × Json)} {dt dv : Json} {target value : Expr}
      (form : Tagged "Assignment" es) (receiver : Json.get? "receiver" es = some dt)
      (spellsTarget : SpellsExpr dt target) (valued : Json.get? "value" es = some dv)
      (spellsValue : SpellsExpr dv value) :
      SpellsStmt (.object es) (.assignment target value)
  | conditional {es : List (Text × Json)} {d : Json} {condition : Expr}
      {thenBody elseBody : List Stmt} (form : Tagged "If" es)
      (tested : Json.get? "condition" es = some d) (spells : SpellsExpr d condition)
      (thens : Listed SpellsStmt (Json.get? "then_statements" es) thenBody)
      (elses : Listed SpellsStmt (Json.get? "else_statements" es) elseBody) :
      SpellsStmt (.object es) (.conditional condition thenBody elseBody)
  | forEach {es : List (Text × Json)} {name : Text} {d : Json} {value : Expr} {body : List Stmt}
      (form : Tagged "For" es) (named : Json.get? "name" es = some (.string name))
      (valued : Json.get? "value" es = some d) (spells : SpellsExpr d value)
      (statements : Listed SpellsStmt (Json.get? "statements" es) body) :
      SpellsStmt (.object es) (.forEach name value body)
  | whileLoop {es : List (Text × Json)} {d : Json} {condition : Expr} {body : List Stmt}
      (form : Tagged "While" es) (tested : Json.get? "condition" es = some d)
      (spells : SpellsExpr d condition)
      (statements : Listed SpellsStmt (Json.get? "statements" es) body) :
      SpellsStmt (.object es) (.whileLoop condition body)
  | returning {es : List (Text × Json)} {d : Json} {value : Expr} (form : Tagged "Return" es)
      (valued : Json.get? "value" es = some d) (spells : SpellsExpr d value) :
      SpellsStmt (.object es) (.returning value)

/-- A document spells a field. -/
inductive SpellsField : Json → FieldPlace → Prop
  | field {es : List (Text × Json)} {name : Text} {typeName : Option Text} {value : Option Expr}
      (form : Tagged "Field" es) (named : Json.get? "name" es = some (.string name))
      (typed : Optionally IsText (Json.get? "type_name" es) typeName)
      (valued : Optionally SpellsExpr (Json.get? "value" es) value) :
      SpellsField (.object es) (.field ⟨name, typeName, value, none⟩)

/-- A document spells a method. Its parameters and their types are as many. -/
inductive SpellsMethod : Json → MethodPlace → Prop
  | method {es : List (Text × Json)} {name : Text} {parameters types : List Text}
      {returnTypeName : Option Text} {body : List Stmt} (form : Tagged "Method" es)
      (named : Json.get? "name" es = some (.string name))
      (taking : Listed IsText (Json.get? "parameters" es) parameters)
      (typed : Listed IsText (Json.get? "parameter_type_names" es) types)
      (paired : parameters.length = types.length)
      (answering : Optionally IsText (Json.get? "return_type_name" es) returnTypeName)
      (statements : Listed SpellsStmt (Json.get? "statements" es) body) :
      SpellsMethod (.object es)
        (.method ⟨name, parameters.map some, types.map some, returnTypeName, body, none⟩)

/-- A document spells a source. -/
inductive SpellsSource : Json → Source → Prop
  | source {es : List (Text × Json)} {fields : List FieldPlace} {methods : List MethodPlace}
      (form : Tagged "Source" es) (fielded : Listed SpellsField (Json.get? "fields" es) fields)
      (methodical : Listed SpellsMethod (Json.get? "methods" es) methods) :
      SpellsSource (.object es) ⟨fields, methods⟩

end Parlance.Document
