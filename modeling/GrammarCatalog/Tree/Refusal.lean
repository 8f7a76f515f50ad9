/-
**Why no tree fits.**

Where the tokens of a text fit no tree, there is a first token that cannot stand where it stands.
The refusal says what was expected in its place; when the token is itself a stretch of text that
is no token, its own defect is reported instead.

Main definitions:

* `GrammarCatalog.Expectation` — what was expected;
* `GrammarCatalog.Refusal` — why a token was refused, with the message.
-/

import GrammarCatalog.Token.Basic

set_option relaxedAutoImplicit false
set_option autoImplicit false

namespace GrammarCatalog

/-- What was expected in place of a token. -/
inductive Expectation where
  /-- The first token of a statement. -/
  | statement
  /-- A definition behind the directive of this name. -/
  | definitionAfter (directive : String)
  /-- The end of the statement. -/
  | endOfLine
  /-- A name, a string or a regular expression, as an item or an argument. -/
  | value
  /-- The second string of a range. -/
  | upperString
  /-- The name of a rule. -/
  | ruleName
  /-- The name of a rule or a terminal. -/
  | name
  /-- An integer. -/
  | number
  /-- A sign. -/
  | sign (which : Punctuation)
  deriving DecidableEq, Repr, Inhabited

/-- How messages name what was expected. -/
def Expectation.phrase : Expectation → String
  | statement => "a rule, terminal or directive"
  | definitionAfter directive => "a rule or terminal definition after %" ++ directive
  | endOfLine => "end of line"
  | value => "a name, string or regexp"
  | upperString => "string after '..'"
  | ruleName => "rule name"
  | name => "name"
  | number => "number"
  | sign which => (TokenKind.punctuation which).describe

/-- Why a token cannot stand where it stands. -/
inductive Refusal where
  /-- The token is a stretch of text that is no token. -/
  | malformed (cause : LexicalError)
  /-- Something else was expected. -/
  | unexpected (expected : Expectation) (found : TokenKind)
  /-- An alias outside a rule. -/
  | aliasOutsideRule
  /-- One group or argument more than may be open at once. -/
  | nestedTooDeeply
  /-- A directive of a name that is none. -/
  | unknownDirective (name : String)
  deriving DecidableEq, Repr, Inhabited

/-- The wording of a refusal. -/
def Refusal.message : Refusal → String
  | malformed cause => cause.message
  | unexpected expected found =>
      "expected " ++ expected.phrase ++ ", found " ++ found.describe
  | aliasOutsideRule => "aliases are only allowed in rule definitions"
  | nestedTooDeeply => "groups nested too deeply"
  | unknownDirective name => (LexicalError.unknownDirective name).message

end GrammarCatalog
