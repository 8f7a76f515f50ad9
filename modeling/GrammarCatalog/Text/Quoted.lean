/-
**Quoted texts.**

A fault message shows a text between quotation marks, spelled so that every character can be seen:
the quotation mark and the backslash get a backslash, the common controls their letter, and the
other characters that do not show as themselves their code point in braces.

Main definitions:

* `GrammarCatalog.Text.quotedChar` — the spelling of one character;
* `GrammarCatalog.Text.quoted` — the spelling of a text, quotation marks included.
-/

import GrammarCatalog.Text.Unprintable

set_option relaxedAutoImplicit false
set_option autoImplicit false

namespace GrammarCatalog.Text

/-- The spelling of a code point: its hexadecimal digits in lower case, between braces. -/
def codePointEscape (c : Char) : List Char :=
  ['\\', 'u', '\x7b'] ++ Nat.toDigits 16 c.toNat ++ ['\x7d']

/-- The spelling of one character between quotation marks. -/
def quotedChar (c : Char) : List Char :=
  match c with
  | '"' => ['\\', '"']
  | '\\' => ['\\', '\\']
  | '\n' => ['\\', 'n']
  | '\r' => ['\\', 'r']
  | '\t' => ['\\', 't']
  | '\x00' => ['\\', '0']
  | c => if isUnprintable c then codePointEscape c else [c]

/-- The text between quotation marks, with every character spelled visibly. -/
def quoted (text : String) : String :=
  String.ofList ('"' :: (text.toList.flatMap quotedChar ++ ['"']))

end GrammarCatalog.Text
