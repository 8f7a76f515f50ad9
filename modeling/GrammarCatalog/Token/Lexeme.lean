/-
**The token at the start of a text.**

Given a text that begins with a visible character, these scanners say which token stands there,
which characters it takes, and what is left.  The first one or two characters decide the class of
the token, and each class has a scanner of its own.  Every scanner takes at least one character,
also where the text is no token, and takes them from the front.

Main definitions:

* `GrammarCatalog.Lexeme` — a kind, the characters it takes, and the rest;
* `GrammarCatalog.Lexeme.scan` — the token at the start of a text.

Main results:

* `GrammarCatalog.Lexeme.text_append_rest_scan` — what is taken and what is left make up the text;
* `GrammarCatalog.Lexeme.text_scan_ne_nil` — something is taken.
-/

import GrammarCatalog.Text.Line
import GrammarCatalog.Token.Basic
import GrammarCatalog.Token.Literal
import GrammarCatalog.Token.Name

set_option relaxedAutoImplicit false
set_option autoImplicit false

namespace GrammarCatalog

/-- A token at the start of a text: its kind, the characters it takes, and what follows. -/
structure Lexeme where
  /-- What the token is. -/
  kind : TokenKind
  /-- The characters it takes. -/
  text : List Char
  /-- What follows it. -/
  rest : List Char
  deriving DecidableEq, Repr, Inhabited

namespace Lexeme

/-! ### Comments -/

/-- A comment runs to the end of its line; the carriage returns there are not part of its text. -/
def scanComment (cs : List Char) : Lexeme :=
  { kind := .comment (String.ofList (Text.trimReturns (Text.firstLine cs)))
    text := Text.firstLine cs
    rest := cs.dropWhile (· != '\n') }

/-! ### Literals -/

/-- A string, past its opening quotation mark. -/
def scanString (cs : List Char) : Lexeme :=
  let body := Literal.scanBody '"' cs
  if body.closed then
    let flagged := Literal.hasCaseFlag body.rest
    { kind := .string (String.ofList body.text) flagged
      text := '"' :: (body.consumed '"' ++ if flagged then ['i'] else [])
      rest := if flagged then body.rest.tail else body.rest }
  else
    { kind := .malformed .unterminatedString, text := '"' :: body.consumed '"', rest := body.rest }

/-- A regular expression, past its opening slash. -/
def scanRegexp (cs : List Char) : Lexeme :=
  let body := Literal.scanBody '/' cs
  if body.closed then
    let flags := body.rest.takeWhile Literal.isRegexpFlag
    { kind := .regexp (String.ofList body.text) (String.ofList flags)
      text := '/' :: (body.consumed '/' ++ flags)
      rest := body.rest.dropWhile Literal.isRegexpFlag }
  else
    { kind := .malformed .unterminatedRegexp, text := '/' :: body.consumed '/', rest := body.rest }

/-! ### Numbers -/

/-- The numbers of 64 bits with sign lie below this one and not below its negative. -/
def numberBound : Nat := 0x8000000000000000

/-- The integer that digits spell, if 64 bits with sign can hold it. -/
def integer (negative : Bool) (digits : List Char) : TokenKind :=
  let magnitude := Nat.ofDigitChars 10 digits 0
  if negative then
    if magnitude ≤ numberBound then .number (-magnitude) else .malformed .numberTooSmall
  else
    if magnitude < numberBound then .number magnitude else .malformed .numberTooLarge

/-- A number: all the digits that stand here, behind its minus sign if it has one. -/
def scanNumber (negative : Bool) (cs : List Char) : Lexeme :=
  let digits := cs.takeWhile Char.isDigit
  { kind := integer negative digits
    text := (if negative then ['-'] else []) ++ digits
    rest := cs.dropWhile Char.isDigit }

/-! ### Names and directives -/

/-- What a run of name characters spells. -/
def nameKind (text : List Char) : TokenKind :=
  if Name.isRule text then .rule (String.ofList text)
  else if Name.isTerminal text then .terminal (String.ofList text)
  else .malformed (.invalidName (String.ofList text))

/-- A name: all the name characters that stand here. -/
def scanName (cs : List Char) : Lexeme :=
  let text := cs.takeWhile Name.isPart
  { kind := nameKind text, text := text, rest := cs.dropWhile Name.isPart }

/-- A directive, past its percent sign. -/
def scanDirective (cs : List Char) : Lexeme :=
  let text := cs.takeWhile Name.isPart
  let name := String.ofList text
  { kind :=
      if (Directive.ofName? name).isSome then .directive name
      else if text.isEmpty then .malformed .missingDirectiveName
      else .malformed (.unknownDirective name)
    text := '%' :: text
    rest := cs.dropWhile Name.isPart }

/-! ### Marked names -/

/-- The markers that a name may carry where a definition begins. -/
def isMark (c : Char) : Bool := c == '!' || c == '?'

/-- Markers stand here, and a name begins behind the last of them. -/
def marksName (cs : List Char) : Bool :=
  cs.head?.any isMark && (cs.dropWhile isMark).head?.any Name.isStart

/-- The markers that one name can have: an exclamation mark and then a question mark, each of them
optional. -/
def splitMarks : List Char → List Char × List Char
  | '!' :: '?' :: rest => (['!', '?'], rest)
  | '!' :: rest => (['!'], rest)
  | '?' :: rest => (['?'], rest)
  | rest => ([], rest)

/-- What a run of name characters spells behind its markers. -/
def markedKind (marks text : List Char) : TokenKind :=
  let spelling := String.ofList (marks ++ text)
  if Name.isRule text then
    if marks.contains '?' && text.head? == some '_' then
      .malformed (.inlinedAndConditional spelling)
    else .rule spelling
  else if Name.isTerminal text then .malformed (.markedTerminal spelling)
  else .malformed (.invalidName (String.ofList text))

/-- A rule name with its markers. -/
def scanMarked (cs : List Char) : Lexeme :=
  let parts := splitMarks cs
  let text := parts.2.takeWhile Name.isPart
  { kind := markedKind parts.1 text
    text := parts.1 ++ text
    rest := parts.2.dropWhile Name.isPart }

/-! ### The token at the start of a text -/

/-- A token of which the first character alone says what it is. -/
def scanSign (c : Char) (cs : List Char) : Lexeme :=
  match Punctuation.ofChar? c with
  | some sign => { kind := .punctuation sign, text := [c], rest := cs }
  | none => { kind := .malformed (.unexpectedCharacter c), text := [c], rest := cs }

/-- A token that begins neither with a digit nor with a name. -/
def scanSymbol : Char → List Char → Lexeme
  | '.', '.' :: cs => { kind := .punctuation .dotDot, text := ['.', '.'], rest := cs }
  | '.', cs => { kind := .punctuation .dot, text := ['.'], rest := cs }
  | '-', '>' :: cs => { kind := .punctuation .arrow, text := ['-', '>'], rest := cs }
  | '-', cs =>
      if cs.head?.any Char.isDigit then scanNumber true cs
      else { kind := .malformed .loneMinus, text := ['-'], rest := cs }
  | '#', cs => scanComment ('#' :: cs)
  | '/', '/' :: cs => scanComment ('/' :: '/' :: cs)
  | '/', cs => scanRegexp cs
  | '"', cs => scanString cs
  | '%', cs => scanDirective cs
  | c, cs => scanSign c cs

/-- The token at the start of a text, given its first character and what follows.  Markers belong
to a name only where a definition may begin. -/
def scan (opening : Bool) (c : Char) (cs : List Char) : Lexeme :=
  if opening && marksName (c :: cs) then scanMarked (c :: cs)
  else if c.isDigit then scanNumber false (c :: cs)
  else if Name.isStart c then scanName (c :: cs)
  else scanSymbol c cs

/-! ### What is taken and what is left -/

/-- A lexeme divides a text: it takes a first part that is not empty and leaves the rest. -/
def Divides (lexeme : Lexeme) (cs : List Char) : Prop :=
  lexeme.text ++ lexeme.rest = cs ∧ lexeme.text ≠ []

theorem text_append_rest_scanComment (cs : List Char) :
    (scanComment cs).text ++ (scanComment cs).rest = cs := List.takeWhile_append_dropWhile

theorem divides_scanComment {c : Char} {cs : List Char} (h : c ≠ '\n') :
    (scanComment (c :: cs)).Divides (c :: cs) :=
  ⟨text_append_rest_scanComment _, by simp [scanComment, Text.firstLine, h]⟩

theorem hasCaseFlag_eq_true {cs : List Char} (h : Literal.hasCaseFlag cs = true) :
    'i' :: cs.tail = cs := by
  unfold Literal.hasCaseFlag at h
  split at h <;> simp_all

theorem divides_scanString (cs : List Char) : (scanString cs).Divides ('"' :: cs) := by
  have body := Literal.scanBody_append '"' cs
  unfold scanString
  dsimp only
  split
  · refine ⟨?_, by simp⟩
    by_cases flagged : Literal.hasCaseFlag (Literal.scanBody '"' cs).rest = true
    · have := hasCaseFlag_eq_true flagged
      simp only [flagged, if_true, List.cons_append, List.append_assoc, List.nil_append, this, body]
    · simp only [flagged, if_false, List.cons_append, List.append_nil, body,
        Bool.false_eq_true]
  · exact ⟨by simp only [List.cons_append, body], by simp⟩

theorem divides_scanRegexp (cs : List Char) : (scanRegexp cs).Divides ('/' :: cs) := by
  have body := Literal.scanBody_append '/' cs
  unfold scanRegexp
  dsimp only
  split
  · refine ⟨?_, by simp⟩
    simp only [List.cons_append, List.append_assoc, List.takeWhile_append_dropWhile, body]
  · exact ⟨by simp only [List.cons_append, body], by simp⟩

theorem text_append_rest_scanNumber (negative : Bool) (cs : List Char) :
    (scanNumber negative cs).text ++ (scanNumber negative cs).rest =
      (if negative then ['-'] else []) ++ cs := by
  simp [scanNumber, List.takeWhile_append_dropWhile]

theorem divides_scanName {c : Char} {cs : List Char} (h : Name.isStart c = true) :
    (scanName (c :: cs)).Divides (c :: cs) :=
  ⟨List.takeWhile_append_dropWhile, by simp [scanName, Name.isPart, h]⟩

theorem divides_scanDirective (cs : List Char) : (scanDirective cs).Divides ('%' :: cs) :=
  ⟨by simp [scanDirective, List.takeWhile_append_dropWhile], by simp [scanDirective]⟩

theorem splitMarks_append (cs : List Char) : (splitMarks cs).1 ++ (splitMarks cs).2 = cs := by
  unfold splitMarks
  split <;> rfl

theorem splitMarks_fst_ne_nil {c : Char} {cs : List Char} (h : isMark c = true) :
    (splitMarks (c :: cs)).1 ≠ [] := by
  simp only [isMark, Bool.or_eq_true, beq_iff_eq] at h
  rcases h with rfl | rfl
  · unfold splitMarks; split <;> simp_all
  · simp [splitMarks]

theorem divides_scanMarked {c : Char} {cs : List Char} (h : isMark c = true) :
    (scanMarked (c :: cs)).Divides (c :: cs) := by
  constructor
  · simp [scanMarked, List.takeWhile_append_dropWhile, splitMarks_append]
  · simp [scanMarked, splitMarks_fst_ne_nil h]

theorem divides_scanSign (c : Char) (cs : List Char) : (scanSign c cs).Divides (c :: cs) := by
  unfold scanSign
  split <;> exact ⟨rfl, by simp⟩

theorem divides_scanSymbol (c : Char) (cs : List Char) : (scanSymbol c cs).Divides (c :: cs) := by
  unfold scanSymbol
  split
  · exact ⟨rfl, by simp⟩
  · exact ⟨rfl, by simp⟩
  · exact ⟨rfl, by simp⟩
  · split
    · exact ⟨text_append_rest_scanNumber true cs, by simp [scanNumber]⟩
    · exact ⟨rfl, by simp⟩
  · exact divides_scanComment (by decide)
  · exact divides_scanComment (by decide)
  · exact divides_scanRegexp cs
  · exact divides_scanString cs
  · exact divides_scanDirective cs
  · exact divides_scanSign c cs

theorem divides_scan (opening : Bool) (c : Char) (cs : List Char) :
    (scan opening c cs).Divides (c :: cs) := by
  unfold scan
  split
  · rename_i h
    simp only [marksName, List.head?_cons, Option.any_some, Bool.and_eq_true] at h
    exact divides_scanMarked h.2.1
  · split
    · rename_i h
      exact ⟨text_append_rest_scanNumber false _, by simp [scanNumber, h]⟩
    · split
      · rename_i h
        exact divides_scanName h
      · exact divides_scanSymbol c cs

theorem text_append_rest_scan (opening : Bool) (c : Char) (cs : List Char) :
    (scan opening c cs).text ++ (scan opening c cs).rest = c :: cs :=
  (divides_scan opening c cs).1

theorem text_scan_ne_nil (opening : Bool) (c : Char) (cs : List Char) :
    (scan opening c cs).text ≠ [] :=
  (divides_scan opening c cs).2

theorem length_rest_scan_lt (opening : Bool) (c : Char) (cs : List Char) :
    (scan opening c cs).rest.length < (c :: cs).length := by
  have h := congrArg List.length (text_append_rest_scan opening c cs)
  have := List.length_pos_iff.2 (text_scan_ne_nil opening c cs)
  rw [List.length_append] at h
  omega

end Lexeme

end GrammarCatalog
