/-
JSON values in messages.

A message shows a value on one line: strings in quotes, the constants capitalised, and
lists and objects in brackets with a comma and a blank between their parts.  An integer with
too many digits for a text cannot be shown, nor can anything that holds one.
-/
import Parlance.Json.Basic
import Parlance.Number.Integer
import Parlance.Text.Quoted

namespace Parlance.Json

open Parlance.Text (quoted)

mutual

/-- A value as messages show it, if they can. -/
def shown? : Json → Option String
  | .null => some "None"
  | .bool true => some "True"
  | .bool false => some "False"
  | .integer n => Number.text? n
  | .number x => some x.text
  | .string s => some (quoted s)
  | .array items =>
    (shownItems? items).map fun shown => "[" ++ String.intercalate ", " shown ++ "]"
  | .object entries =>
    (shownEntries? entries).map fun shown =>
      "\x7b" ++ String.intercalate ", " shown ++ "\x7d"

/-- The items of a list as messages show them. -/
def shownItems? : List Json → Option (List String)
  | [] => some []
  | v :: rest => do return (← shown? v) :: (← shownItems? rest)

/-- The entries of an object as messages show them. -/
def shownEntries? : List (Text × Json) → Option (List String)
  | [] => some []
  | (k, v) :: rest => do return (quoted k ++ ": " ++ (← shown? v)) :: (← shownEntries? rest)

end

/-- A value where a name is expected: a string is shown without quotes. -/
def named? : Json → Option Text
  | .string s => some s
  | v => (shown? v).map fun (shown : String) => shown

end Parlance.Json
