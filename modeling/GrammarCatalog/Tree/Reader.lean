/-
**Readers of tokens.**

A reader stands before the tokens that are left, and counts the groups and argument lists that are
open.  No more than `Parse.maxNesting` of them may be open at once: the token that would open one
more stays where it is.

Parsers work on whatever has tokens and can be taken a level deeper and back.  A reader is such a
thing.  So is a stream alone, which keeps no count and can be taken to any depth.

Main definitions:

* `GrammarCatalog.Reader` — the tokens that are left, and the count;
* `GrammarCatalog.Reader.enter?`, `GrammarCatalog.Reader.leave` — a level deeper, and back;
* `GrammarCatalog.TokenSource` — what parsers work on.
-/

import GrammarCatalog.Token.Stream

set_option relaxedAutoImplicit false
set_option autoImplicit false

namespace GrammarCatalog

/-- The number of groups and argument lists that may be open at once. -/
def Parse.maxNesting : Nat := 128

/-- What parsers work on: it has tokens, and can be taken a level deeper and back. -/
class TokenSource (σ : Type) where
  /-- The tokens that are left. -/
  stream : σ → TokenStream
  /-- What is left past the current token. -/
  advance : σ → σ
  /-- One level deeper, unless this is too deep. -/
  enter? : σ → Option σ
  /-- Back from one level deeper. -/
  leave : σ → σ

/-- A stream keeps no count of levels. -/
instance : TokenSource TokenStream where
  stream := id
  advance := TokenStream.advance
  enter? := some
  leave := id

@[simp] theorem TokenSource.stream_eq (stream : TokenStream) :
    TokenSource.stream stream = stream := rfl

/-- The tokens that are left, and the number of groups and argument lists that are open. -/
structure Reader where
  /-- The tokens that are left. -/
  stream : TokenStream
  /-- The number of groups and argument lists that are open. -/
  depth : Nat
  deriving DecidableEq, Repr, Inhabited

namespace Reader

/-- A reader that has nothing open. -/
def ofStream (stream : TokenStream) : Reader := ⟨stream, 0⟩

/-- A reader at the beginning of a text. -/
def ofSource (source : String) : Reader := ofStream (TokenStream.ofSource source)

/-- The reader past its current token. -/
def advance (reader : Reader) : Reader := { reader with stream := reader.stream.advance }

/-- The reader with one more group or argument list open, unless too many are open. -/
def enter? (reader : Reader) : Option Reader :=
  if Parse.maxNesting ≤ reader.depth then none else some { reader with depth := reader.depth + 1 }

/-- The reader with one group or argument list less open. -/
def leave (reader : Reader) : Reader := { reader with depth := reader.depth - 1 }

end Reader

instance : TokenSource Reader where
  stream := Reader.stream
  advance := Reader.advance
  enter? := Reader.enter?
  leave := Reader.leave

@[simp] theorem TokenSource.stream_reader (reader : Reader) :
    TokenSource.stream reader = reader.stream := rfl

end GrammarCatalog
