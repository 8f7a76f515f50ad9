/-
**Strings of JSON texts.**

Between its quotation marks a JSON string spells each character either as itself or by an escape:
a backslash with a letter, or with the four hexadecimal digits of a unit of sixteen bits.  Two
such units in a row may be the halves of a surrogate pair and spell one character together.

Written strings escape the quotation mark, the backslash and the control characters, and nothing
else.

Main definitions:

* `GrammarCatalog.Json.StringUnit`, `GrammarCatalog.Json.scanUnits` — what stands between quotation
  marks;
* `GrammarCatalog.Json.decodeUnits` — the text that it denotes, if it denotes one;
* `GrammarCatalog.Json.escapeChar`, `GrammarCatalog.Json.quote` — how a text is written.
-/

import GrammarCatalog.Json.Basic

set_option relaxedAutoImplicit false
set_option autoImplicit false

namespace GrammarCatalog.Json

/-! ### Units -/

/-- What a JSON string is made of: a character, or a unit of sixteen bits given by its digits. -/
inductive StringUnit where
  | char (c : Char)
  | code (code : Nat)
  deriving DecidableEq, Repr, Inhabited

/-- The value of a hexadecimal digit. -/
def hexDigit? (c : Char) : Option Nat :=
  if c.isDigit then some (c.toNat - '0'.toNat)
  else if 'a' ≤ c ∧ c ≤ 'f' then some (c.toNat - 'a'.toNat + 10)
  else if 'A' ≤ c ∧ c ≤ 'F' then some (c.toNat - 'A'.toNat + 10)
  else none

/-- The value of four hexadecimal digits. -/
def hexCode? (a b c d : Char) : Option Nat := do
  let a ← hexDigit? a
  let b ← hexDigit? b
  let c ← hexDigit? c
  let d ← hexDigit? d
  return ((a * 16 + b) * 16 + c) * 16 + d

/-- The character that a backslash and a letter stand for. -/
def escape? : Char → Option Char
  | '"' => some '"'
  | '\\' => some '\\'
  | '/' => some '/'
  | 'b' => some '\x08'
  | 'f' => some '\x0c'
  | 'n' => some '\n'
  | 'r' => some '\r'
  | 't' => some '\t'
  | _ => none

/-- The units up to the closing quotation mark, and what follows it.  A control character or an
unknown escape makes the string no string. -/
def scanUnits : List Char → Option (List StringUnit × List Char)
  | [] => none
  | '"' :: rest => some ([], rest)
  | '\\' :: 'u' :: a :: b :: c :: d :: rest => do
      let code ← hexCode? a b c d
      let (units, rest) ← scanUnits rest
      return (.code code :: units, rest)
  | '\\' :: letter :: rest => do
      let c ← escape? letter
      let (units, rest) ← scanUnits rest
      return (.char c :: units, rest)
  | c :: rest =>
      if c.toNat < 0x20 then none
      else do
        let (units, rest) ← scanUnits rest
        return (.char c :: units, rest)

/-! ### The text of units -/

/-- The first half of a surrogate pair. -/
def isHighHalf (code : Nat) : Bool := 0xD800 ≤ code && code < 0xDC00

/-- The second half of a surrogate pair. -/
def isLowHalf (code : Nat) : Bool := 0xDC00 ≤ code && code < 0xE000

/-- The character of a surrogate pair. -/
def pairChar (high low : Nat) : Char :=
  Char.ofNat (0x10000 + (high - 0xD800) * 0x400 + (low - 0xDC00))

/-- The characters that units denote; none when a half has no other half. -/
def decodeUnits : List StringUnit → Option (List Char)
  | [] => some []
  | .char c :: units => (decodeUnits units).map (c :: ·)
  | .code high :: .code low :: units =>
      if isHighHalf high && isLowHalf low then (decodeUnits units).map (pairChar high low :: ·)
      else if isHighHalf high || isLowHalf high then none
      else (decodeUnits (.code low :: units)).map (Char.ofNat high :: ·)
  | .code code :: units =>
      if isHighHalf code || isLowHalf code then none
      else (decodeUnits units).map (Char.ofNat code :: ·)

/-- The text of a string behind its opening quotation mark, if it denotes one, and what follows the
closing one. -/
def readText (cs : List Char) : Option (Option String × List Char) :=
  (scanUnits cs).map fun scanned => ((decodeUnits scanned.1).map String.ofList, scanned.2)

/-! ### Written strings -/

/-- The four hexadecimal digits of a control character. -/
def controlDigits (c : Char) : List Char :=
  ['0', '0', Nat.digitChar (c.toNat / 16), Nat.digitChar (c.toNat % 16)]

/-- How a character is written between quotation marks. -/
def escapeChar (c : Char) : List Char :=
  match c with
  | '"' => ['\\', '"']
  | '\\' => ['\\', '\\']
  | '\x08' => ['\\', 'b']
  | '\x0c' => ['\\', 'f']
  | '\n' => ['\\', 'n']
  | '\r' => ['\\', 'r']
  | '\t' => ['\\', 't']
  | c => if c.toNat < 0x20 then '\\' :: 'u' :: controlDigits c else [c]

/-- A text as a string.  What denotes no text is written as half a surrogate pair. -/
def quote (text : Option String) : List Char :=
  match text with
  | some text => '"' :: (text.toList.flatMap escapeChar ++ ['"'])
  | none => ['"', '\\', 'u', 'd', '8', '0', '0', '"']

end GrammarCatalog.Json
