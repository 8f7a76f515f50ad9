/-
**Streams of tokens.**

A stream is a token under consideration and the tokens ahead of it.  It is never empty: its last
token is the end of the text, and advancing from there stays there.

Main definitions:

* `GrammarCatalog.TokenStream` — the current token and those ahead;
* `GrammarCatalog.TokenStream.advance` — the stream past its current token;
* `GrammarCatalog.TokenStream.ofSource` — the tokens of a text that are no comments;
* `GrammarCatalog.TokenStream.Terminated` — the end of the text is the last token and no other.

Main results:

* `GrammarCatalog.TokenStream.toList_advance` — advancing drops a token unless it is the last;
* `GrammarCatalog.TokenStream.Terminated.toList_eq` — so it drops any token but the end of the
  text.
-/

import GrammarCatalog.Token.Scan

set_option relaxedAutoImplicit false
set_option autoImplicit false

namespace GrammarCatalog

/-- A token under consideration and the tokens ahead of it. -/
structure TokenStream where
  /-- The token under consideration. -/
  current : Token
  /-- The tokens that come after it. -/
  ahead : List Token
  deriving DecidableEq, Repr, Inhabited

namespace TokenStream

/-- All tokens of a stream. -/
def toList (stream : TokenStream) : List Token := stream.current :: stream.ahead

/-- The stream past its current token; the last token of a stream stays current. -/
def advance (stream : TokenStream) : TokenStream :=
  match stream.ahead with
  | [] => stream
  | next :: ahead => ⟨next, ahead⟩

/-- The stream of a list of tokens, with a token to stand for an empty list. -/
def ofList (default : Token) : List Token → TokenStream
  | [] => ⟨default, []⟩
  | current :: ahead => ⟨current, ahead⟩

/-- The tokens of a text that are no comments.  There always is one, the end of the text. -/
def ofSource (source : String) : TokenStream :=
  ofList ⟨.endOfInput, Span.origin⟩ (Token.significant source)

theorem toList_advance (stream : TokenStream) :
    stream.advance.toList = if stream.ahead = [] then stream.toList else stream.ahead := by
  unfold advance
  split
  · rename_i h; simp [h]
  · rename_i next ahead h; simp [h, toList]

/-! ### The end of a stream -/

/-- The end of the text is the last token of the stream, and no other token is. -/
def Terminated (stream : TokenStream) : Prop :=
  ∀ token back, token :: back <:+ stream.toList → (token.kind = .endOfInput ↔ back = [])

theorem Terminated.current_iff {stream : TokenStream} (h : stream.Terminated) :
    stream.current.kind = .endOfInput ↔ stream.ahead = [] :=
  h stream.current stream.ahead (List.suffix_refl _)

theorem Terminated.of_suffix {stream rest : TokenStream} (h : stream.Terminated)
    (hrest : rest.toList <:+ stream.toList) : rest.Terminated :=
  fun token back hback => h token back (hback.trans hrest)

/-- Advancing drops the current token, unless it is the end of the text. -/
theorem Terminated.toList_eq {stream : TokenStream} (h : stream.Terminated)
    (hkind : stream.current.kind ≠ .endOfInput) :
    stream.toList = stream.current :: stream.advance.toList := by
  have hahead : stream.ahead ≠ [] := fun hahead => hkind (h.current_iff.2 hahead)
  rw [toList_advance, if_neg hahead]
  rfl

theorem Terminated.advance {stream : TokenStream} (h : stream.Terminated) :
    stream.advance.Terminated := by
  refine h.of_suffix ?_
  rw [toList_advance]
  split
  · exact List.suffix_refl _
  · exact List.suffix_cons _ _

end TokenStream

end GrammarCatalog
