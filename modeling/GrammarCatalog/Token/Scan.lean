/-
**Reading a text token by token.**

A scan goes through a text from left to right.  Besides the text that is left and the place where
it begins, it remembers two facts: whether a definition may begin here, so that markers belong to
the name behind them, and whether the last token ended a statement.

Blanks between tokens are skipped.  A line break ends a statement, together with the blank lines
and the indentation after it, unless a statement has just ended or the next visible character
past blank lines and comments is a bar: then it is skipped like a blank.

Main definitions:

* `GrammarCatalog.Scan` — the state of a scan;
* `GrammarCatalog.Scan.next` — the next token, and the scan after it;
* `GrammarCatalog.Scan.tokens` — all tokens up to the end of the text;
* `GrammarCatalog.Token.ofSource`, `GrammarCatalog.Token.significant` — the tokens of a text, and
  those that are no comments.

Main results:

* `GrammarCatalog.Scan.length_next_lt` — every token but the last takes something from the text;
* `GrammarCatalog.Scan.tokens_eq` — the tokens are the next one and those after it.
-/

import GrammarCatalog.Text.Blank
import GrammarCatalog.Text.Cursor
import GrammarCatalog.Token.Lexeme

set_option relaxedAutoImplicit false
set_option autoImplicit false

namespace GrammarCatalog

/-- The state of a left-to-right scan of a text. -/
structure Scan where
  /-- The text that is left. -/
  rest : List Char
  /-- The place where it begins. -/
  cursor : Text.Cursor
  /-- A definition may begin here, and its name may carry markers. -/
  opening : Bool
  /-- The last token other than a comment ended a statement. -/
  afterNewline : Bool
  deriving DecidableEq, Repr, Inhabited

namespace Scan

/-- The scan of a text before its first token. -/
def ofSource (source : String) : Scan := ⟨source.toList, Text.Cursor.origin, true, false⟩

/-- The scan past the characters of a class. -/
def skip (isSkipped : Char → Bool) (scan : Scan) : Scan :=
  { scan with
    rest := scan.rest.dropWhile isSkipped
    cursor := scan.cursor.advance (scan.rest.takeWhile isSkipped) }

/-- Whether a definition may begin after a token: it may after a line break and after a directive
that leads a definition, and a comment changes nothing. -/
def opensAfter (opening : Bool) : TokenKind → Bool
  | .newline => true
  | .directive name => opening && (Directive.ofName? name).any Directive.leadsDefinition
  | .comment _ => opening
  | _ => false

/-- Whether a statement has just ended after a token; a comment changes nothing. -/
def newlineAfter (afterNewline : Bool) : TokenKind → Bool
  | .newline => true
  | .comment _ => afterNewline
  | _ => false

/-- The token that takes some characters, and the scan behind it. -/
def emit (scan : Scan) (kind : TokenKind) (text rest : List Char) : Token × Scan :=
  let cursor := scan.cursor.advance text
  (⟨kind, ⟨scan.cursor.offset, cursor.offset, scan.cursor.line, scan.cursor.column⟩⟩,
    { rest := rest
      cursor := cursor
      opening := opensAfter scan.opening kind
      afterNewline := newlineAfter scan.afterNewline kind })

/-- The next token when a visible character or the end of the text is next. -/
def visible (scan : Scan) : Token × Scan :=
  match scan.rest with
  | [] =>
      (⟨.endOfInput,
        ⟨scan.cursor.offset, scan.cursor.offset, scan.cursor.line, scan.cursor.column⟩⟩, scan)
  | c :: cs =>
      let lexeme := Lexeme.scan scan.opening c cs
      scan.emit lexeme.kind lexeme.text lexeme.rest

/-- Past blanks and comments, the next character is a bar.  The flag says whether a comment is
open. -/
def leadsToPipe : Bool → List Char → Bool
  | _, [] => false
  | true, c :: cs => leadsToPipe (c != '\n') cs
  | false, '|' :: _ => true
  | false, '#' :: cs => leadsToPipe true cs
  | false, '/' :: '/' :: cs => leadsToPipe true cs
  | false, c :: cs => Text.isBlank c && leadsToPipe false cs

/-- The next token, where blanks other than line feeds have been skipped. -/
def nextUnspaced (scan : Scan) : Token × Scan :=
  if scan.rest.head? = some '\n' then
    let after := scan.skip Text.isBlank
    if scan.afterNewline || leadsToPipe false after.rest then after.visible
    else scan.emit .newline (scan.rest.takeWhile Text.isBlank) after.rest
  else scan.visible

/-- The next token and the scan behind it.  At the end of the text, the end is the next token
forever. -/
def next (scan : Scan) : Token × Scan := (scan.skip Text.isSpacing).nextUnspaced

/-! ### Progress -/

theorem length_dropWhile_le (p : Char → Bool) (cs : List Char) :
    (cs.dropWhile p).length ≤ cs.length :=
  (List.dropWhile_suffix p).length_le

theorem length_skip_le (p : Char → Bool) (scan : Scan) :
    (scan.skip p).rest.length ≤ scan.rest.length :=
  length_dropWhile_le p scan.rest

theorem length_visible_lt {scan : Scan} (h : scan.visible.1.kind ≠ .endOfInput) :
    scan.visible.2.rest.length < scan.rest.length := by
  unfold visible at h ⊢
  split
  · rename_i hrest
    simp [hrest] at h
  · rename_i c cs hrest
    rw [hrest]
    exact Lexeme.length_rest_scan_lt scan.opening c cs

theorem length_nextUnspaced_lt {scan : Scan} (h : scan.nextUnspaced.1.kind ≠ .endOfInput) :
    scan.nextUnspaced.2.rest.length < scan.rest.length := by
  unfold nextUnspaced at h ⊢
  dsimp only at h ⊢
  split
  · rename_i hhead
    simp only [hhead, if_true] at h
    split
    -- the line break is skipped, and the token behind it takes something
    · rename_i hcond
      simp only [hcond, if_true] at h
      exact Nat.lt_of_lt_of_le (length_visible_lt h) (length_skip_le _ _)
    -- the line break is the token
    · cases hrest : scan.rest with
      | nil => simp [hrest] at hhead
      | cons c cs =>
          simp only [hrest, List.head?_cons, Option.some.injEq] at hhead
          subst hhead
          simp only [emit, skip, hrest, List.dropWhile_cons, Text.isBlank_newline, if_true,
            List.length_cons]
          exact Nat.lt_succ_of_le (length_dropWhile_le _ _)
  · rename_i hhead
    simp only [hhead, if_false] at h
    exact length_visible_lt h

/-- Every token but the end of the text takes something from it. -/
theorem length_next_lt {scan : Scan} (h : scan.next.1.kind ≠ .endOfInput) :
    scan.next.2.rest.length < scan.rest.length :=
  Nat.lt_of_lt_of_le (length_nextUnspaced_lt h) (length_skip_le _ _)

/-! ### All tokens -/

/-- The tokens from here to the end of the text, the end included. -/
def tokens (scan : Scan) : List Token :=
  if _ends : scan.next.1.kind = .endOfInput then [scan.next.1]
  else scan.next.1 :: scan.next.2.tokens
termination_by scan.rest.length
decreasing_by exact length_next_lt _ends

theorem tokens_eq (scan : Scan) :
    scan.tokens =
      if scan.next.1.kind = .endOfInput then [scan.next.1]
      else scan.next.1 :: scan.next.2.tokens := by
  rw [tokens]
  split <;> rfl

/-- The next tokens, as many as asked for. -/
def take : Nat → Scan → List Token
  | 0, _ => []
  | count + 1, scan => scan.next.1 :: take count scan.next.2

end Scan

/-- The tokens of a text, the end of the text included. -/
def Token.ofSource (source : String) : List Token := (Scan.ofSource source).tokens

/-- The tokens of a text that are no comments. -/
def Token.significant (source : String) : List Token :=
  (Token.ofSource source).filter fun token => !token.kind.isTrivia

end GrammarCatalog
