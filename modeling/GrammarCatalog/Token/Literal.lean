/-
**Strings and regular expressions.**

A literal runs from its delimiter to the next one that no backslash precedes, and has to end on
its line.  A backslash keeps the character after it in the literal, whatever it is, except a line
feed.  Behind the closing delimiter stand the flags: a string may have the letter `i`, provided
no name goes on from there, and a regular expression any run of its flag letters.

Main definitions:

* `GrammarCatalog.Literal.Body`, `GrammarCatalog.Literal.scanBody` — the text up to the closing
  delimiter, or up to where the literal breaks off;
* `GrammarCatalog.Literal.hasCaseFlag`, `GrammarCatalog.Literal.isRegexpFlag` — the flags.

Main results:

* `GrammarCatalog.Literal.scanBody_append` — the body, its delimiter and what follows make up the
  text.
-/

import GrammarCatalog.Token.Name

set_option relaxedAutoImplicit false
set_option autoImplicit false

namespace GrammarCatalog.Literal

/-- A literal past its opening delimiter: the text inside, whether the closing delimiter was
found behind it, and the text that follows. -/
structure Body where
  /-- The text inside the literal, escapes as written. -/
  text : List Char
  /-- Whether the closing delimiter was found. -/
  closed : Bool
  /-- What follows the literal. -/
  rest : List Char
  deriving DecidableEq, Repr, Inhabited

/-- The same literal with more text before it. -/
def Body.push (cs : List Char) (body : Body) : Body := { body with text := cs ++ body.text }

/-- The text of a literal up to its closing delimiter.  It breaks off before a line feed and at
the end of the text. -/
def scanBody (delimiter : Char) : List Char → Body
  | [] => ⟨[], false, []⟩
  | ['\\'] => ⟨['\\'], false, []⟩
  | '\\' :: '\n' :: rest => ⟨['\\'], false, '\n' :: rest⟩
  | '\\' :: c :: rest => (scanBody delimiter rest).push ['\\', c]
  | '\n' :: rest => ⟨[], false, '\n' :: rest⟩
  | c :: rest =>
      if c = delimiter then ⟨[], true, rest⟩ else (scanBody delimiter rest).push [c]

/-- What was consumed of a literal behind its opening delimiter. -/
def Body.consumed (delimiter : Char) (body : Body) : List Char :=
  body.text ++ if body.closed then [delimiter] else []

theorem Body.consumed_push (delimiter : Char) (cs : List Char) (body : Body) :
    (body.push cs).consumed delimiter = cs ++ body.consumed delimiter :=
  List.append_assoc ..

theorem scanBody_append (delimiter : Char) (cs : List Char) :
    (scanBody delimiter cs).consumed delimiter ++ (scanBody delimiter cs).rest = cs := by
  fun_induction scanBody delimiter cs with
  | case1 => rfl
  | case2 => rfl
  | case3 rest => rfl
  | case4 c rest _ ih => rw [Body.consumed_push]; simpa [Body.push] using ih
  | case5 rest => rfl
  | case6 rest => simp [Body.consumed]
  | case7 c rest _ _ _ _ hc ih => rw [Body.consumed_push]; simpa [Body.push] using ih

/-- The letter `i` stands here and is not the beginning of a longer name. -/
def hasCaseFlag : List Char → Bool
  | 'i' :: c :: _ => !Name.isPart c
  | ['i'] => true
  | _ => false

/-- The flag letters of a regular expression. -/
def isRegexpFlag (c : Char) : Bool := ['i', 'm', 's', 'l', 'u', 'x'].contains c

end GrammarCatalog.Literal
