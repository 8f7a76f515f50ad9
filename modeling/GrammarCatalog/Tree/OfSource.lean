/-
**The tree of a text.**

Reading a text gives its tree or a parse error: the message, the position of the refused token,
and the line it stands on.  After either, reading can be taken up again at the token where it
stopped, by the same reader.

Main definitions:

* `GrammarCatalog.ParseError`, `GrammarCatalog.Failure` — a parse error, and what keeps a text from
  being answered;
* `GrammarCatalog.Tree.ofSource` — the tree of a text;
* `GrammarCatalog.Tree.successive` — the trees of repeated readings.
-/

import GrammarCatalog.Fault
import GrammarCatalog.Tree.Statement

set_option relaxedAutoImplicit false
set_option autoImplicit false

namespace GrammarCatalog

/-- A text has no tree: why, where, and the line it is about. -/
structure ParseError where
  /-- What is wrong. -/
  message : String
  /-- Line of the refused token, counted from one. -/
  line : Nat
  /-- Column of the refused token, counted from one. -/
  column : Nat
  /-- The line of the text. -/
  lineText : String
  deriving DecidableEq, Repr, Inhabited

/-- What keeps a text from being answered. -/
inductive Failure where
  /-- The text has no tree. -/
  | rejected (error : ParseError)
  /-- A promise was broken. -/
  | broken (fault : Fault)
  deriving DecidableEq, Repr, Inhabited

/-- The failure of a refusal: its message, at the refused token and with its line. -/
def Refusal.toFailure (refusal : Refusal) (span : Span) (source : String) : Failure :=
  match span.lineText? source with
  | some lineText => .rejected ⟨refusal.message, span.line, span.column, lineText⟩
  | none => .broken .badPlace

namespace Tree

/-- The tree that the tokens of a text have from some token on, and what is left where reading
stopped. -/
def ofTokens {σ : Type} [TokenSource σ] (source : String) (tokens : σ) :
    Except Failure Tree × σ :=
  match Parse.grammar (Text.byteLength source.toList) tokens with
  | .accepted tree rest => (.ok tree, rest)
  | .refused reason rest =>
      (.error (reason.toFailure (TokenSource.stream rest).current.span source), rest)

/-- The tree of a text. -/
def ofSource (source : String) : Except Failure Tree :=
  (ofTokens source (Reader.ofSource source)).1

/-- The trees of as many readings as asked for, each from the token where the one before stopped. -/
def successiveFrom (source : String) : Nat → Reader → List (Except Failure Tree)
  | 0, _ => []
  | times + 1, reader =>
      (ofTokens source reader).1 :: successiveFrom source times (ofTokens source reader).2

/-- The trees of repeated readings of a text. -/
def successive (source : String) (times : Nat) : List (Except Failure Tree) :=
  successiveFrom source times (Reader.ofSource source)

end Tree

end GrammarCatalog
