/-
**What lexemes are.**

The lexeme at a character is a comment exactly where a comment begins.  Any other is a sign or a
word, and it neither ends a statement nor is passed over.

Main definitions:

* `GrammarCatalog.Lexeme.BeginsComment` — where a comment begins;
* `GrammarCatalog.TokenKind.isWord` — a kind that is neither a comment nor an end nor a sign;
* `GrammarCatalog.Lexeme.Breaks` — what matters of a lexeme that is no comment to line breaks.

Main results:

* `GrammarCatalog.Lexeme.scan_of_beginsComment`, `GrammarCatalog.Lexeme.breaks_scan` — what stands
  at a character;
* `GrammarCatalog.Lexeme.kind_scan_ne` — no lexeme is a line break or the end of the text.
-/

import GrammarCatalog.Token.Lexeme

set_option relaxedAutoImplicit false
set_option autoImplicit false

namespace GrammarCatalog

/-- A kind that is neither a comment nor the end of a statement nor a sign. -/
def TokenKind.isWord : TokenKind → Bool
  | punctuation _ | newline | comment _ | endOfInput => false
  | _ => true

namespace Lexeme

/-- Where a comment begins. -/
def BeginsComment (c : Char) (cs : List Char) : Prop := c = '#' ∨ c = '/' ∧ cs.head? = some '/'

/-! ### Words -/

theorem isWord_scanMarked (cs : List Char) : (scanMarked cs).kind.isWord = true := by
  simp only [scanMarked, markedKind]
  split
  · split <;> rfl
  · split <;> rfl

theorem isWord_scanNumber (negative : Bool) (cs : List Char) :
    (scanNumber negative cs).kind.isWord = true := by
  simp only [scanNumber, integer]
  split
  · split <;> rfl
  · split <;> rfl

theorem isWord_scanName (cs : List Char) : (scanName cs).kind.isWord = true := by
  simp only [scanName, nameKind]
  split
  · rfl
  · split <;> rfl

theorem isWord_scanDirective (cs : List Char) : (scanDirective cs).kind.isWord = true := by
  simp only [scanDirective]
  split
  · rfl
  · split <;> rfl

theorem isWord_scanString (cs : List Char) : (scanString cs).kind.isWord = true := by
  simp only [scanString]
  split <;> rfl

theorem isWord_scanRegexp (cs : List Char) : (scanRegexp cs).kind.isWord = true := by
  simp only [scanRegexp]
  split <;> rfl

/-! ### What stands at a character -/

theorem ofChar?_eq_some_pipe_iff (c : Char) : Punctuation.ofChar? c = some .pipe ↔ c = '|' := by
  constructor
  · intro h
    have htext := Punctuation.text_of_ofChar? h
    simpa [Punctuation.text, eq_comm] using congrArg String.toList htext
  · rintro rfl
    rfl

/-- What the lexeme at a character can be, as far as line breaks are concerned. -/
structure Breaks (lexeme : Lexeme) (c : Char) : Prop where
  /-- It is no comment. -/
  isTrivia : lexeme.kind.isTrivia = false
  /-- It ends no statement. -/
  endsStatement : lexeme.kind.endsStatement = false
  /-- It is a bar only if a bar stands there. -/
  pipe_iff : lexeme.kind = .punctuation .pipe ↔ c = '|'

theorem breaks_of_isWord {lexeme : Lexeme} {c : Char} (h : lexeme.kind.isWord = true)
    (hc : c ≠ '|') : lexeme.Breaks c := by
  cases hkind : lexeme.kind with
  | punctuation _ | newline | comment _ | endOfInput => simp [hkind, TokenKind.isWord] at h
  | _ =>
      refine ⟨by rw [hkind]; rfl, by rw [hkind]; rfl, ?_⟩
      simp [hkind, hc]

theorem breaks_scanSign (c : Char) (cs : List Char) : (scanSign c cs).Breaks c := by
  have hpipe := ofChar?_eq_some_pipe_iff c
  unfold scanSign
  cases hsign : Punctuation.ofChar? c with
  | none =>
      rw [hsign] at hpipe
      exact ⟨rfl, rfl, by simpa using hpipe⟩
  | some sign =>
      rw [hsign] at hpipe
      exact ⟨rfl, rfl, by simpa using hpipe⟩

theorem breaks_scanSymbol {c : Char} {cs : List Char} (h : ¬BeginsComment c cs) :
    (scanSymbol c cs).Breaks c := by
  simp only [BeginsComment, not_or, not_and] at h
  unfold scanSymbol
  split
  · exact ⟨rfl, rfl, by simp⟩
  · exact ⟨rfl, rfl, by simp⟩
  · exact ⟨rfl, rfl, by simp⟩
  · split
    · exact breaks_of_isWord (isWord_scanNumber _ _) (by simp)
    · exact ⟨rfl, rfl, by simp⟩
  · exact absurd rfl h.1
  · exact absurd rfl (h.2 rfl)
  · exact breaks_of_isWord (isWord_scanRegexp _) (by simp)
  · exact breaks_of_isWord (isWord_scanString _) (by simp)
  · exact breaks_of_isWord (isWord_scanDirective _) (by simp)
  · exact breaks_scanSign _ _

/-- A lexeme that is no comment. -/
theorem breaks_scan {c : Char} {cs : List Char} (opening : Bool) (h : ¬BeginsComment c cs) :
    (scan opening c cs).Breaks c := by
  unfold scan
  split
  · rename_i hmarks
    refine breaks_of_isWord (isWord_scanMarked _) ?_
    rintro rfl
    simp [marksName, isMark] at hmarks
  · split
    · rename_i hdigit
      refine breaks_of_isWord (isWord_scanNumber _ _) ?_
      rintro rfl
      simp at hdigit
    · split
      · rename_i hstart
        refine breaks_of_isWord (isWord_scanName _) ?_
        rintro rfl
        simp [Name.isStart] at hstart
      · exact breaks_scanSymbol h

theorem scan_of_beginsComment {c : Char} {cs : List Char} (opening : Bool)
    (h : BeginsComment c cs) : scan opening c cs = scanComment (c :: cs) := by
  rcases h with rfl | ⟨rfl, hhead⟩
  · simp [scan, marksName, isMark, Name.isStart, scanSymbol]
  · cases cs with
    | nil => simp at hhead
    | cons d cs =>
        obtain rfl : d = '/' := by simpa using hhead
        simp [scan, marksName, isMark, Name.isStart, scanSymbol]

theorem scan_quote (opening : Bool) (cs : List Char) : scan opening '"' cs = scanString cs := by
  simp [scan, marksName, isMark, Name.isStart, scanSymbol]

theorem scan_slash (opening : Bool) {cs : List Char} (h : cs.head? ≠ some '/') :
    scan opening '/' cs = scanRegexp cs := by
  cases cs with
  | nil => simp [scan, marksName, isMark, Name.isStart, scanSymbol]
  | cons c cs =>
      have hc : c ≠ '/' := by simpa using h
      simp [scan, marksName, isMark, Name.isStart, scanSymbol, hc]

theorem kind_scan_ne (opening : Bool) (c : Char) (cs : List Char) :
    (scan opening c cs).kind ≠ .newline ∧ (scan opening c cs).kind ≠ .endOfInput := by
  by_cases h : BeginsComment c cs
  · rw [scan_of_beginsComment opening h]
    simp [scanComment]
  · have hends := (breaks_scan opening h).endsStatement
    constructor <;> intro hkind <;> simp [hkind, TokenKind.endsStatement] at hends

end Lexeme

end GrammarCatalog
