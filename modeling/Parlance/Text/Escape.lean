/-
Escapes in the body of a character or string literal.

A backslash and the letter after it stand for one character; there are seven such pairs,
and a backslash before anything else, or at the end, is a mistake.  `resolve?` reads the
pairs, `escape` writes them for the characters that have one.
-/
import Parlance.Text.Basic

namespace Parlance.Text

/-- The backslash. -/
def backslash : CodePoint := .char '\\'

/-- The character that a backslash and this letter stand for. -/
def escaped? : CodePoint → Option CodePoint
  | .char 'b' => some (.char '\x08')
  | .char 'n' => some (.char '\n')
  | .char 'r' => some (.char '\r')
  | .char 't' => some (.char '\t')
  | .char '\\' => some (.char '\\')
  | .char '"' => some (.char '"')
  | .char '\'' => some (.char '\'')
  | _ => none

/-- The text with every escape replaced by its character, unless a backslash begins none. -/
def resolve? : List CodePoint → Option (List CodePoint)
  | [] => some []
  | c :: rest =>
    if c = backslash then
      match rest with
      | [] => none
      | letter :: rest => do
        let meaning ← escaped? letter
        return meaning :: (← resolve? rest)
    else (resolve? rest).map (c :: ·)

/-- A code point as it is written in a literal. -/
def escapeCodePoint : CodePoint → List CodePoint
  | .char '\x08' => [backslash, .char 'b']
  | .char '\n' => [backslash, .char 'n']
  | .char '\r' => [backslash, .char 'r']
  | .char '\t' => [backslash, .char 't']
  | .char '\\' => [backslash, .char '\\']
  | .char '"' => [backslash, .char '"']
  | .char '\'' => [backslash, .char '\'']
  | c => [c]

/-- A text as the body of a literal. -/
def escape (cs : List CodePoint) : List CodePoint :=
  cs.flatMap escapeCodePoint

end Parlance.Text
