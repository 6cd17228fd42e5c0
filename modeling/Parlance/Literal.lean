/-
Literals.

A literal comes as it is written in a program, quotes and escapes included, or as a
payload in a document: the kind of the value and its plain text.
-/
import Parlance.Value
import Parlance.Text.Escape
import Parlance.Json.Shown

namespace Parlance.Literal

open Parlance.Text (resolve?)

/-! ### As written in a program -/

/-- An integer. -/
def integer (text : Text) : Except DocumentFault Value :=
  match text.toString?.bind Number.integer? with
  | some n => .ok (.integer n)
  | none => .error (.invalidInteger text)

/-- A decimal. -/
def decimal (text : Text) : Except DocumentFault Value :=
  match text.toString?.bind Decimal.ofText? with
  | some d => .ok (.decimal d)
  | none => .error (.invalidDecimal text)

/-- The body of a literal with its escapes resolved. -/
def unescape (text : Text) : Except DocumentFault Text :=
  match resolve? text.toList with
  | some cs => .ok (Text.ofList cs)
  | none => .error (.invalidEscape text)

/-- What stands between two quotes. -/
def body? (quote : Char) (cs : List CodePoint) : Option (List CodePoint) :=
  match cs with
  | c :: rest =>
    if c = .char quote ∧ rest.getLast? = some (.char quote) then some rest.dropLast else none
  | [] => none

/-- The text between the quotes of a literal, its escapes resolved. -/
def unquote (quote : Char) (text : Text) : Except DocumentFault Text :=
  match body? quote text.toList with
  | some cs => unescape (Text.ofList cs)
  | none => .error (.notQuoted quote text)

/-- A character between single quotes. -/
def character (text : Text) : Except DocumentFault Value := do
  match Value.ofCharacterText? (← unquote '\'' text) with
  | some v => return v
  | none => throw (.notOneCharacter text)

/-- A string between double quotes. -/
def string (text : Text) : Except DocumentFault Value := do
  return .string (← unquote '"' text)

/-! ### As a payload -/

/-- The built-in kind that a payload names. -/
def kind? : Json → Option Builtin
  | .string t => Builtin.ofName? t
  | _ => none

/-- The value of a payload. -/
def ofPayload : Json → Except DocumentFault Value
  | .object entries =>
    match Json.get? "kind" entries with
    | none => .error .notLiteral
    | some kind =>
      let raw := (Json.get? "value" entries).getD .null
      let invalid := .error (.invalidLiteral kind.named? raw.shown?)
      match kind? kind, raw with
      | some .nil, _ => .ok .nil
      | some .boolean, .bool b => .ok (.boolean b)
      | some .integer, .string t => integer t
      | some .decimal, .string t => decimal t
      | some .character, .string t =>
        match Value.ofCharacterText? t with
        | some v => .ok v
        | none => invalid
      | some .string, .string t => .ok (.string t)
      | _, _ => invalid
  | _ => .error .notLiteral

end Parlance.Literal
