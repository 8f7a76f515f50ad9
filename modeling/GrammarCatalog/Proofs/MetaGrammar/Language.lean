/-
**The language of grammar texts.**

The notation in which grammars are written has a grammar of its own, the meta-grammar.  Here it is
stated as a language over kinds of tokens, rule by rule, with the operations on languages: product
for sequence, sum for choice, star for repetition.  Nothing in it mentions a parser.

Groups and arguments may be nested in each other up to a given depth.  The rules that nest carry
the number of levels that may still be opened, and a text may open `Parse.maxNesting` of them.

Main definitions:

* `GrammarCatalog.MetaGrammar.value`, `GrammarCatalog.MetaGrammar.expansions` — the rules that
  nest: values with arguments, and alternatives with groups;
* `GrammarCatalog.MetaGrammar.statement` — definitions and directives;
* `GrammarCatalog.MetaGrammar.sentence` — **the language of grammar texts**: lines of statements
  and the end of the text.

Main results:

* `GrammarCatalog.MetaGrammar.expansions_eq` — alternatives at any depth are alternatives of the
  atoms of that depth.
-/

import Mathlib.Computability.Language
import GrammarCatalog.Tree.Statement

set_option relaxedAutoImplicit false
set_option autoImplicit false

namespace GrammarCatalog

/-! ### Classes of kinds -/

namespace TokenKind

/-- The name of a rule. -/
def isRule : TokenKind → Bool
  | rule _ => true
  | _ => false

/-- The name of a terminal. -/
def isTerminal : TokenKind → Bool
  | terminal _ => true
  | _ => false

/-- A name of either kind. -/
def isName (kind : TokenKind) : Bool := kind.isRule || kind.isTerminal

/-- A string. -/
def isString : TokenKind → Bool
  | string _ _ => true
  | _ => false

/-- A regular expression. -/
def isRegexp : TokenKind → Bool
  | regexp _ _ => true
  | _ => false

/-- An integer. -/
def isNumber : TokenKind → Bool
  | number _ => true
  | _ => false

/-- The directive of a name. -/
def isDirective (which : Directive) (kind : TokenKind) : Bool := kind == directive which.name

end TokenKind

namespace MetaGrammar

open scoped Computability

/-! ### Tokens and lists -/

/-- A single token of a class. -/
def token (suits : TokenKind → Bool) : Language TokenKind :=
  {word | ∃ kind, suits kind = true ∧ word = [kind]}

/-- A sign. -/
def sign (which : Punctuation) : Language TokenKind := token (· == .punctuation which)

/-- What may be left out. -/
def optional (language : Language TokenKind) : Language TokenKind := 1 + language

/-- One or several, with a sign between them. -/
def listOf (separator : Punctuation) (language : Language TokenKind) : Language TokenKind :=
  language * (sign separator * language)∗

/-! ### Values and groups -/

/-- A string, a range of strings, a regular expression, a terminal, or a rule without
arguments. -/
def literal : Language TokenKind :=
  token TokenKind.isString +
    token TokenKind.isString * sign .dotDot * token TokenKind.isString +
    token TokenKind.isRegexp + token TokenKind.isTerminal + token TokenKind.isRule

/-- A literal, or a rule with values for arguments. -/
def value : ℕ → Language TokenKind
  | 0 => literal
  | depth + 1 =>
      literal +
        token TokenKind.isRule * sign .leftBrace * listOf .comma (value depth) * sign .rightBrace

/-- The operators behind an atom. -/
def operator : Language TokenKind :=
  sign .question + sign .star + sign .plus +
    sign .tilde * token TokenKind.isNumber *
      optional (sign .dotDot * token TokenKind.isNumber)

/-- An atom with at most one operator. -/
def item (atom : Language TokenKind) : Language TokenKind := atom * optional operator

/-- Items, possibly none, with an alias where aliases are allowed. -/
def alternative (aliases : Bool) (atom : Language TokenKind) : Language TokenKind :=
  (item atom)∗ * if aliases then optional (sign .arrow * token TokenKind.isRule) else 1

/-- Alternatives of some atoms. -/
def alternatives (aliases : Bool) (atom : Language TokenKind) : Language TokenKind :=
  listOf .pipe (alternative aliases atom)

/-- Alternatives in parentheses or in brackets. -/
def groupOf (body : Language TokenKind) : Language TokenKind :=
  sign .leftParen * body * sign .rightParen + sign .leftBracket * body * sign .rightBracket

/-- Alternatives, with groups in them down to a depth.  In groups aliases are always allowed. -/
def expansions : ℕ → Bool → Language TokenKind
  | 0, aliases => alternatives aliases (value 0)
  | depth + 1, aliases =>
      alternatives aliases (value (depth + 1) + groupOf (expansions depth true))

/-- A value, or a group if a level may still be opened. -/
def atom : ℕ → Language TokenKind
  | 0 => value 0
  | depth + 1 => value (depth + 1) + groupOf (expansions depth true)

theorem expansions_eq (depth : ℕ) (aliases : Bool) :
    expansions depth aliases = alternatives aliases (atom depth) := by
  cases depth <;> rfl

/-! ### Statements -/

/-- The parameters of a rule. -/
def params : Language TokenKind :=
  optional (sign .leftBrace * listOf .comma (token TokenKind.isRule) * sign .rightBrace)

/-- The priority of a definition. -/
def priority : Language TokenKind := optional (sign .dot * token TokenKind.isNumber)

/-- A rule, whose alternatives may have aliases. -/
def rule (depth : ℕ) : Language TokenKind :=
  token TokenKind.isRule * params * priority * sign .colon * expansions depth true

/-- A terminal, whose alternatives may not. -/
def term (depth : ℕ) : Language TokenKind :=
  token TokenKind.isTerminal * priority * sign .colon * expansions depth false

/-- A rule or a terminal. -/
def definition (depth : ℕ) : Language TokenKind := rule depth + term depth

/-- The path of an import, relative if it begins with a dot. -/
def path : Language TokenKind :=
  optional (sign .dot) * listOf .dot (token TokenKind.isName)

/-- A directive with its name. -/
def directive (which : Directive) : Language TokenKind := token (TokenKind.isDirective which)

/-- A path alone, a path with a new name, or a path with the names that are taken over. -/
def imported : Language TokenKind :=
  path * optional (sign .arrow * token TokenKind.isName) +
    path * sign .leftParen * listOf .comma (token TokenKind.isName) * sign .rightParen

/-- A definition or a directive. -/
def statement (depth : ℕ) : Language TokenKind :=
  definition depth + directive .ignore * expansions depth false +
    directive .importing * imported +
    directive .declare * token TokenKind.isName * (token TokenKind.isName)∗ +
    (directive .override + directive .extend) * definition depth

/-- The end of a line. -/
def newline : Language TokenKind := token (· == .newline)

/-- Statements and line breaks in any order, with a line break or the end behind each statement. -/
def lines (depth : ℕ) : Language TokenKind :=
  (newline + statement depth * newline)∗ * optional (statement depth)

/-- **The language of grammar texts**: lines of statements, and the end of the text. -/
def sentence : Language TokenKind := lines Parse.maxNesting * token (· == .endOfInput)

end MetaGrammar

end GrammarCatalog
