/-
**Tokens of a grammar text.**

A token is a kind with its payload and the span it was read from.  A stretch of text that is no
token becomes a token all the same, one that says what is wrong with it; so reading tokens never
fails.

Main definitions:

* `GrammarCatalog.Punctuation`, `GrammarCatalog.Directive` — the signs and the directives, with
  their text;
* `GrammarCatalog.LexicalError` — why a stretch of text is no token, with the message;
* `GrammarCatalog.TokenKind`, `GrammarCatalog.Token` — kinds with payload, and tokens;
* `GrammarCatalog.TokenKind.describe` — how messages name a kind;
* `GrammarCatalog.TokenKind.text` — how a token is written.

Main results:

* `GrammarCatalog.Directive.ofName?_name`, `GrammarCatalog.Directive.name_of_ofName?` — a directive
  is found by its name and no other.
-/

import GrammarCatalog.Span

set_option relaxedAutoImplicit false
set_option autoImplicit false

namespace GrammarCatalog

/-! ### Signs -/

/-- The signs of a grammar text. -/
inductive Punctuation where
  | colon
  | pipe
  | arrow
  | leftParen
  | rightParen
  | leftBracket
  | rightBracket
  | leftBrace
  | rightBrace
  | comma
  | dot
  | dotDot
  | tilde
  | question
  | star
  | plus
  deriving DecidableEq, Repr, Inhabited

namespace Punctuation

/-- How a sign is written. -/
def text : Punctuation → String
  | colon => ":"
  | pipe => "|"
  | arrow => "->"
  | leftParen => "("
  | rightParen => ")"
  | leftBracket => "["
  | rightBracket => "]"
  | leftBrace => "\x7b"
  | rightBrace => "\x7d"
  | comma => ","
  | dot => "."
  | dotDot => ".."
  | tilde => "~"
  | question => "?"
  | star => "*"
  | plus => "+"

/-- The signs of one character that begin no longer token. -/
def ofChar? : Char → Option Punctuation
  | ':' => some colon
  | '|' => some pipe
  | '(' => some leftParen
  | ')' => some rightParen
  | '[' => some leftBracket
  | ']' => some rightBracket
  | '\x7b' => some leftBrace
  | '\x7d' => some rightBrace
  | ',' => some comma
  | '~' => some tilde
  | '?' => some question
  | '*' => some star
  | '+' => some plus
  | _ => none

theorem text_of_ofChar? {c : Char} {sign : Punctuation} (h : ofChar? c = some sign) :
    sign.text = String.ofList [c] := by
  unfold ofChar? at h
  split at h <;> first | contradiction | (cases h; rfl)

end Punctuation

/-! ### Directives -/

/-- The directives of a grammar text. -/
inductive Directive where
  /-- Names taken over from another grammar. -/
  | importing
  /-- Text that may stand between any two terminals. -/
  | ignore
  /-- Names that are defined elsewhere. -/
  | declare
  /-- A definition in place of an imported one. -/
  | override
  /-- More alternatives for an imported definition. -/
  | extend
  deriving DecidableEq, Repr, Inhabited

namespace Directive

/-- How a directive is named behind its percent sign. -/
def name : Directive → String
  | importing => "import"
  | ignore => "ignore"
  | declare => "declare"
  | override => "override"
  | extend => "extend"

/-- The directive of a name. -/
def ofName? (name : String) : Option Directive :=
  [importing, ignore, declare, override, extend].find? fun directive => directive.name == name

/-- A definition follows the directive, so a marked name may. -/
def leadsDefinition : Directive → Bool
  | override | extend => true
  | _ => false

@[simp] theorem ofName?_name (directive : Directive) :
    ofName? directive.name = some directive := by
  cases directive <;> decide

theorem name_of_ofName? {name : String} {directive : Directive}
    (h : ofName? name = some directive) : directive.name = name := by
  simpa using List.find?_some h

end Directive

/-! ### Defects of spelling -/

/-- Why a stretch of text is no token. -/
inductive LexicalError where
  /-- A minus sign that begins neither an arrow nor a number. -/
  | loneMinus
  /-- A string that is still open at the end of its line. -/
  | unterminatedString
  /-- A regular expression that is still open at the end of its line. -/
  | unterminatedRegexp
  /-- A number above the greatest one of 64 bits with sign. -/
  | numberTooLarge
  /-- A number below the least one of 64 bits with sign. -/
  | numberTooSmall
  /-- A percent sign without a name. -/
  | missingDirectiveName
  /-- A percent sign with a name that is no directive. -/
  | unknownDirective (name : String)
  /-- A run of name characters that is neither a rule nor a terminal. -/
  | invalidName (text : String)
  /-- A rule marked both inlined and conditional. -/
  | inlinedAndConditional (spelling : String)
  /-- A terminal with the markers of a rule. -/
  | markedTerminal (spelling : String)
  /-- A character that begins no token. -/
  | unexpectedCharacter (c : Char)
  deriving DecidableEq, Repr, Inhabited

/-- The wording of a defect of spelling. -/
def LexicalError.message : LexicalError → String
  | loneMinus => "expected '->' or a number after '-'"
  | unterminatedString => "unterminated string literal"
  | unterminatedRegexp => "unterminated regexp"
  | numberTooLarge => "invalid number: number too large to fit in target type"
  | numberTooSmall => "invalid number: number too small to fit in target type"
  | missingDirectiveName => "expected directive name after '%'"
  | unknownDirective name => "unknown directive: %" ++ name
  | invalidName text => "invalid name: " ++ text
  | inlinedAndConditional spelling =>
      "a rule cannot be both inlined and conditional: " ++ spelling
  | markedTerminal spelling => "markers only apply to rule names: " ++ spelling
  | unexpectedCharacter c => "unexpected character: " ++ String.singleton c

/-! ### Kinds -/

/-- What a token is, with what it carries. -/
inductive TokenKind where
  /-- A rule name, markers included. -/
  | rule (name : String)
  /-- A terminal name. -/
  | terminal (name : String)
  /-- A string: the text between the quotation marks, escapes as written, and its flag. -/
  | string (text : String) (ignoreCase : Bool)
  /-- A regular expression: the text between the slashes, escapes as written, and its flags. -/
  | regexp (pattern flags : String)
  /-- An integer. -/
  | number (value : Int)
  /-- A directive, without its percent sign. -/
  | directive (name : String)
  /-- A sign. -/
  | punctuation (sign : Punctuation)
  /-- The end of a statement: one line break or several. -/
  | newline
  /-- A comment, with the signs that begin it. -/
  | comment (text : String)
  /-- The end of the text. -/
  | endOfInput
  /-- A stretch of text that is no token. -/
  | malformed (cause : LexicalError)
  deriving DecidableEq, Repr, Inhabited

namespace TokenKind

/-- A kind that the parser passes over. -/
def isTrivia : TokenKind → Bool
  | comment _ => true
  | _ => false

/-- A kind that ends a statement. -/
def endsStatement : TokenKind → Bool
  | newline | endOfInput => true
  | _ => false

/-- How messages name a kind. -/
def describe : TokenKind → String
  | rule _ => "rule name"
  | terminal _ => "terminal name"
  | string _ _ => "string"
  | regexp _ _ => "regexp"
  | number _ => "number"
  | directive _ => "directive"
  | punctuation sign => "'" ++ sign.text ++ "'"
  | newline => "end of line"
  | comment _ => "comment"
  | endOfInput => "end of input"
  | malformed _ => "error"

/-- The name that a rule or a terminal carries. -/
def name? : TokenKind → Option String
  | rule name | terminal name => some name
  | _ => none

/-- The name that a rule carries. -/
def ruleName? : TokenKind → Option String
  | rule name => some name
  | _ => none

/-- How a token is written in a grammar text; what has no writing of its own is described. -/
def text : TokenKind → String
  | rule name | terminal name => name
  | string text ignoreCase => "\"" ++ text ++ "\"" ++ (if ignoreCase then "i" else "")
  | regexp pattern flags => "/" ++ pattern ++ "/" ++ flags
  | number value => value.repr
  | directive name => "%" ++ name
  | punctuation sign => sign.text
  | kind => kind.describe

end TokenKind

/-! ### Tokens -/

/-- A kind read from a span of the text. -/
structure Token where
  /-- What the token is. -/
  kind : TokenKind
  /-- Where it was read. -/
  span : Span
  deriving DecidableEq, Repr, Inhabited

end GrammarCatalog
