/-
**Written JSON values.**

A value is written in one of two ways: without any blanks, or spread out with each item of an array
and each member of an object on a line of its own, two spaces deeper than the line of its opening
sign.  Empty arrays and objects are written on one line in either way.

Main definitions:

* `GrammarCatalog.Json.compact` — a value without blanks;
* `GrammarCatalog.Json.pretty` — a value spread over lines.
-/

import GrammarCatalog.Json.Text

set_option relaxedAutoImplicit false
set_option autoImplicit false

namespace GrammarCatalog.Json

/-- Pieces with a separator between them. -/
def join (separator : List Char) : List (List Char) → List Char
  | [] => []
  | [piece] => piece
  | piece :: pieces => piece ++ separator ++ join separator pieces

/-! ### Without blanks -/

mutual

/-- The characters of a value without blanks. -/
def compactChars : Json → List Char
  | .null => ['n', 'u', 'l', 'l']
  | .bool true => ['t', 'r', 'u', 'e']
  | .bool false => ['f', 'a', 'l', 's', 'e']
  | .number literal => literal.toList
  | .string text => quote text
  | .array items => '[' :: (join [','] (compactItems items) ++ [']'])
  | .object members => '\x7b' :: (join [','] (compactMembers members) ++ ['\x7d'])

/-- The characters of each item of an array. -/
def compactItems : List Json → List (List Char)
  | [] => []
  | item :: items => compactChars item :: compactItems items

/-- The characters of each member of an object. -/
def compactMembers : List (Option String × Json) → List (List Char)
  | [] => []
  | (key, value) :: members =>
      (quote key ++ ':' :: compactChars value) :: compactMembers members

end

/-- A value without blanks. -/
def compact (value : Json) : String := String.ofList (compactChars value)

/-! ### Spread over lines -/

/-- A line feed and the indentation of a depth. -/
def newLine (depth : Nat) : List Char := '\n' :: List.replicate (2 * depth) ' '

/-- Pieces on lines of their own between two signs, one level deeper than the signs. -/
def spread (depth : Nat) (opening closing : Char) (pieces : List (List Char)) : List Char :=
  if pieces.isEmpty then [opening, closing]
  else
    opening :: (newLine (depth + 1) ++ join (',' :: newLine (depth + 1)) pieces ++
      newLine depth ++ [closing])

mutual

/-- The characters of a value that begins on a line of the given depth. -/
def prettyChars (depth : Nat) : Json → List Char
  | .array items => spread depth '[' ']' (prettyItems (depth + 1) items)
  | .object members => spread depth '\x7b' '\x7d' (prettyMembers (depth + 1) members)
  | .null => compactChars .null
  | .bool value => compactChars (.bool value)
  | .number literal => compactChars (.number literal)
  | .string text => compactChars (.string text)

/-- The characters of each item of an array. -/
def prettyItems (depth : Nat) : List Json → List (List Char)
  | [] => []
  | item :: items => prettyChars depth item :: prettyItems depth items

/-- The characters of each member of an object. -/
def prettyMembers (depth : Nat) : List (Option String × Json) → List (List Char)
  | [] => []
  | (key, value) :: members =>
      (quote key ++ ':' :: ' ' :: prettyChars depth value) :: prettyMembers depth members

end

/-- A value spread over lines. -/
def pretty (value : Json) : String := String.ofList (prettyChars 0 value)

end GrammarCatalog.Json
