/-
**Names.**

A run of name characters spells a rule when, past one optional underscore, it begins with a
lower-case letter and goes on in lower-case letters, digits and underscores; with upper case in
place of lower case it spells a terminal.  Any other run is no name.

Main definitions:

* `GrammarCatalog.Name.isStart`, `GrammarCatalog.Name.isPart` — the characters that begin a name,
  and those that may follow;
* `GrammarCatalog.Name.isRule`, `GrammarCatalog.Name.isTerminal` — the two kinds of names.
-/

set_option relaxedAutoImplicit false
set_option autoImplicit false

namespace GrammarCatalog.Name

/-- A name begins with an underscore or a letter of ASCII. -/
def isStart (c : Char) : Bool := c == '_' || c.isAlpha

/-- A name goes on with underscores, letters and digits of ASCII. -/
def isPart (c : Char) : Bool := isStart c || c.isDigit

/-- A name without its leading underscore, if it has one. -/
def body : List Char → List Char
  | '_' :: rest => rest
  | text => text

/-- A text whose first character is a letter of one case and whose others are letters of that
case, digits and underscores. -/
def isUniform (isLetter : Char → Bool) : List Char → Bool
  | [] => false
  | c :: rest => isLetter c && rest.all fun d => d == '_' || isLetter d || d.isDigit

/-- The text spells a rule. -/
def isRule (text : List Char) : Bool := isUniform Char.isLower (body text)

/-- The text spells a terminal. -/
def isTerminal (text : List Char) : Bool := isUniform Char.isUpper (body text)

end GrammarCatalog.Name
