/-
**Reading JSON texts.**

A text is read as one value with blanks around it.  Blanks are the space, the tab, the line feed
and the carriage return; numbers have no leading zeros or signs, no bare dots and no empty
exponents; nothing may follow the last item of an array or object but its closing sign.

Main definitions:

* `GrammarCatalog.Json.scanNumber` — a number;
* `GrammarCatalog.Json.readValue` — a value, and what follows it;
* `GrammarCatalog.Json.parse` — the value of a text.
-/

import GrammarCatalog.Json.Text

set_option relaxedAutoImplicit false
set_option autoImplicit false

namespace GrammarCatalog.Json

/-- A blank of a JSON text. -/
def isBlank (c : Char) : Bool := c == ' ' || c == '\n' || c == '\t' || c == '\r'

/-- The text without the blanks in front. -/
def skipBlanks (cs : List Char) : List Char := cs.dropWhile isBlank

/-! ### Numbers -/

/-- The digits that stand here, one at least, and what follows them. -/
def scanDigits (cs : List Char) : Option (List Char × List Char) :=
  if cs.head?.any Char.isDigit then some (cs.takeWhile Char.isDigit, cs.dropWhile Char.isDigit)
  else none

/-- The whole part of a number: a zero alone, or digits that do not begin with one. -/
def scanWhole : List Char → Option (List Char × List Char)
  | '0' :: rest => some (['0'], rest)
  | cs => scanDigits cs

/-- The places behind the dot of a number, if it has one. -/
def scanFraction : List Char → Option (List Char × List Char)
  | '.' :: rest => (scanDigits rest).map fun parts => ('.' :: parts.1, parts.2)
  | cs => some ([], cs)

/-- The sign of an exponent, if it has one. -/
def scanSign : List Char → List Char × List Char
  | '+' :: rest => (['+'], rest)
  | '-' :: rest => (['-'], rest)
  | cs => ([], cs)

/-- The exponent of a number, if it has one. -/
def scanExponent : List Char → Option (List Char × List Char)
  | c :: rest =>
      if c = 'e' ∨ c = 'E' then
        (scanDigits (scanSign rest).2).map fun parts =>
          (c :: ((scanSign rest).1 ++ parts.1), parts.2)
      else some ([], c :: rest)
  | [] => some ([], [])

/-- A number behind its minus sign. -/
def scanMagnitude (cs : List Char) : Option (List Char × List Char) := do
  let (whole, rest) ← scanWhole cs
  let (fraction, rest) ← scanFraction rest
  let (exponent, rest) ← scanExponent rest
  return (whole ++ fraction ++ exponent, rest)

/-- A number as it is written, and what follows it. -/
def scanNumber : List Char → Option (List Char × List Char)
  | '-' :: rest => (scanMagnitude rest).map fun parts => ('-' :: parts.1, parts.2)
  | cs => scanMagnitude cs

/-! ### Values -/

/-- A value that is neither an array nor an object. -/
def readScalar : List Char → Option (Json × List Char)
  | '"' :: rest => (readText rest).map fun parts => (.string parts.1, parts.2)
  | 'n' :: 'u' :: 'l' :: 'l' :: rest => some (.null, rest)
  | 't' :: 'r' :: 'u' :: 'e' :: rest => some (.bool true, rest)
  | 'f' :: 'a' :: 'l' :: 's' :: 'e' :: rest => some (.bool false, rest)
  | cs => (scanNumber cs).map fun parts => (.number (String.ofList parts.1), parts.2)

/-- The key of a member and its colon. -/
def readKey (cs : List Char) : Option (Option String × List Char) :=
  match skipBlanks cs with
  | '"' :: rest => do
      let (key, rest) ← readText rest
      match skipBlanks rest with
      | ':' :: rest => return (key, rest)
      | _ => none
  | _ => none

mutual

/-- A value with blanks in front, and what follows it.  The first argument bounds the calls. -/
def readValue : Nat → List Char → Option (Json × List Char)
  | 0, _ => none
  | calls + 1, cs =>
      match skipBlanks cs with
      | '[' :: rest =>
          match skipBlanks rest with
          | ']' :: rest => some (.array [], rest)
          | rest => (readItems calls rest).map fun parts => (.array parts.1, parts.2)
      | '\x7b' :: rest =>
          match skipBlanks rest with
          | '\x7d' :: rest => some (.object [], rest)
          | rest => (readMembers calls rest).map fun parts => (.object parts.1, parts.2)
      | rest => readScalar rest

/-- The items of an array, one at least, and its closing sign. -/
def readItems : Nat → List Char → Option (List Json × List Char)
  | 0, _ => none
  | calls + 1, cs => do
      let (item, rest) ← readValue calls cs
      match skipBlanks rest with
      | ']' :: rest => return ([item], rest)
      | ',' :: rest =>
          let (items, rest) ← readItems calls rest
          return (item :: items, rest)
      | _ => none

/-- The members of an object, one at least, and its closing sign. -/
def readMembers : Nat → List Char → Option (List (Option String × Json) × List Char)
  | 0, _ => none
  | calls + 1, cs => do
      let (key, rest) ← readKey cs
      let (value, rest) ← readValue calls rest
      match skipBlanks rest with
      | '\x7d' :: rest => return ([(key, value)], rest)
      | ',' :: rest =>
          let (members, rest) ← readMembers calls rest
          return ((key, value) :: members, rest)
      | _ => none

end

/-- The value of a text.  A sign costs two calls at most, so twice the length of the text bounds
them. -/
def parse (text : String) : Option Json := do
  let cs := text.toList
  let (value, rest) ← readValue (2 * cs.length + 2) cs
  if (skipBlanks rest).isEmpty then return value else none

end GrammarCatalog.Json
