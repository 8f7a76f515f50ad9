/-
**Words of a command line.**

A word is read by how it begins.  Two hyphens alone end the options; two hyphens and more are a
long option, with a value behind its first equals sign; one hyphen and more are the letters of
short options; everything else, a lone hyphen included, is a plain word.

Main definitions:

* `GrammarCatalog.Word` — words as they are read;
* `GrammarCatalog.Word.ofString` — how a word is read;
* `GrammarCatalog.Word.unsigned64?` — an unsigned number of 64 bits.
-/

set_option relaxedAutoImplicit false
set_option autoImplicit false

namespace GrammarCatalog

/-- A word of a command line. -/
inductive Word where
  /-- The end of the options. -/
  | separator
  /-- A long option, and the value attached to it. -/
  | long (name : String) (value : Option String)
  /-- Short options. -/
  | short (letters : List Char)
  /-- A value or an argument. -/
  | plain (text : String)
  deriving DecidableEq, Repr, Inhabited

namespace Word

/-- A long option behind its hyphens: the name up to the first equals sign, and the value behind
it if there is one. -/
def ofLong (cs : List Char) : Word :=
  let name := String.ofList (cs.takeWhile (· != '='))
  match cs.dropWhile (· != '=') with
  | [] => .long name none
  | _ :: value => .long name (some (String.ofList value))

/-- How a word is read. -/
def ofString (word : String) : Word :=
  match word.toList with
  | ['-', '-'] => .separator
  | '-' :: '-' :: rest => ofLong rest
  | ['-'] => .plain word
  | '-' :: letters => .short letters
  | _ => .plain word

/-- The unsigned numbers of 64 bits lie below this one. -/
def unsignedBound : Nat := 0x10000000000000000

/-- The unsigned number of 64 bits that a word spells: digits, behind a plus sign if there is
one. -/
def unsigned64? (word : String) : Option Nat :=
  let digits :=
    match word.toList with
    | '+' :: rest => rest
    | cs => cs
  if digits.isEmpty || !digits.all Char.isDigit then none
  else
    let value := Nat.ofDigitChars 10 digits 0
    if value < unsignedBound then some value else none

end Word

end GrammarCatalog
