/-
**Tokens read back from how they are written.**

Trees and messages show a token as it would be written in a grammar text.  What is shown is read as
that token again, with what it carries: escapes and flags stay as they were written, markers stay
with their names, and numbers lose nothing but leading zeros.  So two tokens that are written alike
are alike, and no token is written with a line feed in it or a space in front.

Main definitions:

* `GrammarCatalog.TokenKind.isWritten` — the kinds that have a writing of their own;
* `GrammarCatalog.TokenKind.Rescans` — how a kind is written is read as that kind.

Main results:

* `GrammarCatalog.Literal.scanBody_text` — the text of a closed literal is read back;
* `GrammarCatalog.Lexeme.rescans_scan` — **a lexeme is read back from how it is written**;
* `GrammarCatalog.TokenKind.Rescans.text_injective`, `GrammarCatalog.TokenKind.Rescans.legible` —
  what is read back is written like no other, and on one line;
* `GrammarCatalog.Token.rescans_of_mem` — the tokens of a text are read back.
-/

import Mathlib
import GrammarCatalog.Proofs.Token.LexemeEnds
import GrammarCatalog.Proofs.Token.Lexemes
import GrammarCatalog.Proofs.Token.Steps

set_option relaxedAutoImplicit false
set_option autoImplicit false

namespace GrammarCatalog

namespace TokenKind

/-- A kind that has a writing of its own: neither an end, nor a comment, nor a stretch of text that
is no token. -/
def isWritten : TokenKind → Bool
  | newline | comment _ | endOfInput | malformed _ => false
  | _ => true

/-- How a kind is written is read as that kind where a definition may begin, with nothing left. -/
def Rescans (kind : TokenKind) : Prop :=
  ∃ c cs, kind.text.toList = c :: cs ∧ Lexeme.scan true c cs = ⟨kind, c :: cs, []⟩

theorem rescans_punctuation (sign : Punctuation) : Rescans (.punctuation sign) := by
  cases sign <;> exact ⟨_, _, rfl, rfl⟩

theorem rescans_directive (directive : Directive) : Rescans (.directive directive.name) := by
  cases directive <;> exact ⟨_, _, rfl, by decide⟩

end TokenKind

/-! ### Runs of characters -/

namespace Text

variable {p : Char → Bool}

theorem takeWhile_of_forall {cs : List Char} (h : ∀ c ∈ cs, p c = true) :
    cs.takeWhile p = cs ∧ cs.dropWhile p = [] := by
  constructor
  · exact List.takeWhile_eq_self_iff.2 h
  · simpa using h

theorem forall_mem_takeWhile (cs : List Char) : ∀ c ∈ cs.takeWhile p, p c = true :=
  fun _ hc => List.mem_takeWhile_imp hc

end Text

/-! ### Names -/

namespace Name

theorem isDigit_eq_false_of_isStart {c : Char} (h : isStart c = true) : c.isDigit = false := by
  by_contra hdigit
  simp only [isStart, Char.isAlpha, Char.isUpper, Char.isLower, Char.isDigit, Bool.not_eq_false,
    Bool.or_eq_true, Bool.and_eq_true, decide_eq_true_eq, beq_iff_eq, ge_iff_le,
    UInt32.le_iff_toNat_le] at h hdigit
  -- digits come before all letters, and the underscore stands among the letters
  have hnine : '9'.val.toNat = 57 := rfl
  have hupper : 'A'.val.toNat = 65 := rfl
  have hlower : 'a'.val.toNat = 97 := rfl
  rcases h with rfl | h | h
  · exact absurd hdigit (by decide)
  · omega
  · omega

theorem isStart_of_isLower {c : Char} (h : c.isLower = true) : isStart c = true := by
  simp [isStart, Char.isAlpha, h]

theorem exists_isStart_of_isRule {text : List Char} (h : isRule text = true) :
    ∃ c cs, text = c :: cs ∧ isStart c = true := by
  cases text with
  | nil => contradiction
  | cons c cs =>
      refine ⟨c, cs, rfl, ?_⟩
      by_cases hc : c = '_'
      · subst hc
        decide
      · have hbody : body (c :: cs) = c :: cs := by simp [body, hc]
        rw [isRule, hbody, isUniform, Bool.and_eq_true] at h
        exact isStart_of_isLower h.1

end Name

namespace Lexeme

open TokenKind (Rescans isWritten)

theorem isMark_eq_false_of_isStart {c : Char} (h : Name.isStart c = true) : isMark c = false := by
  by_contra hmark
  simp only [isMark, Bool.not_eq_false, Bool.or_eq_true, beq_iff_eq] at hmark
  rcases hmark with rfl | rfl <;> contradiction

/-- Where a name begins, the name is read. -/
theorem scan_of_isStart {c : Char} (h : Name.isStart c = true) (opening : Bool) (cs : List Char) :
    scan opening c cs = scanName (c :: cs) := by
  have hmarks : marksName (c :: cs) = false := by simp [marksName, isMark_eq_false_of_isStart h]
  rw [scan, hmarks, Bool.and_false, if_neg (by simp),
    if_neg (by simp [Name.isDigit_eq_false_of_isStart h]), if_pos h]

theorem scanName_of_isPart {text : List Char} (h : ∀ c ∈ text, Name.isPart c = true) :
    scanName text = ⟨nameKind text, text, []⟩ := by
  obtain ⟨htake, hdrop⟩ := Text.takeWhile_of_forall h
  rw [scanName, htake, hdrop]

theorem text_nameKind {text : List Char} (h : (nameKind text).isWritten = true) :
    (nameKind text).text.toList = text := by
  unfold nameKind at h ⊢
  split
  · simp [TokenKind.text]
  · rename_i hrule
    rw [if_neg hrule] at h
    split
    · simp [TokenKind.text]
    · rename_i hterminal
      rw [if_neg hterminal] at h
      contradiction

theorem rescans_scanName {c : Char} {cs : List Char} (hc : Name.isStart c = true)
    (h : (scanName (c :: cs)).kind.isWritten = true) : Rescans (scanName (c :: cs)).kind := by
  have htake : (c :: cs).takeWhile Name.isPart = c :: cs.takeWhile Name.isPart := by
    simp [Name.isPart, hc]
  have hpart : ∀ d ∈ c :: cs.takeWhile Name.isPart, Name.isPart d = true :=
    htake ▸ Text.forall_mem_takeWhile (c :: cs)
  have hkind : (scanName (c :: cs)).kind = nameKind (c :: cs.takeWhile Name.isPart) := by
    rw [scanName, htake]
  rw [hkind] at h ⊢
  refine ⟨c, cs.takeWhile Name.isPart, text_nameKind h, ?_⟩
  rw [scan_of_isStart hc, scanName_of_isPart hpart]

/-! ### Marked names -/

/-- The markers in front of a name are told from it. -/
theorem splitMarks_append_start (cs rest : List Char) {c : Char} (hc : Name.isStart c = true) :
    splitMarks ((splitMarks cs).1 ++ c :: rest) = ((splitMarks cs).1, c :: rest) := by
  have hmark := isMark_eq_false_of_isStart hc
  have hbang : c ≠ '!' := by
    rintro rfl
    contradiction
  have hquestion : c ≠ '?' := by
    rintro rfl
    contradiction
  have hcases : (splitMarks cs).1 = ['!', '?'] ∨ (splitMarks cs).1 = ['!'] ∨
      (splitMarks cs).1 = ['?'] ∨ (splitMarks cs).1 = [] := by
    unfold splitMarks
    split <;> simp
  rcases hcases with hmarks | hmarks | hmarks | hmarks <;> rw [hmarks]
  · rfl
  · simp [splitMarks, hquestion]
  · rfl
  · simp [splitMarks, hbang, hquestion]

/-- What stands in front of a name is markers. -/
theorem isMark_of_mem_splitMarks (cs : List Char) : ∀ c ∈ (splitMarks cs).1, isMark c = true := by
  unfold splitMarks
  split <;> simp [isMark]

/-- A marked name is read with its markers. -/
theorem scan_marked {marks rest : List Char} {m c : Char}
    (hmarks : ∀ d ∈ m :: marks, isMark d = true) (hc : Name.isStart c = true)
    (hrest : ∀ d ∈ rest, Name.isPart d = true)
    (hsplit : splitMarks (m :: marks ++ c :: rest) = (m :: marks, c :: rest)) :
    scan true m (marks ++ c :: rest) =
      ⟨markedKind (m :: marks) (c :: rest), m :: marks ++ c :: rest, []⟩ := by
  have hname : marksName (m :: (marks ++ c :: rest)) = true := by
    have hdrop : (m :: marks ++ c :: rest).dropWhile isMark = c :: rest := by
      rw [List.dropWhile_append_of_pos hmarks]
      simp [isMark_eq_false_of_isStart hc]
    rw [marksName, ← List.cons_append, hdrop]
    simp [hmarks m List.mem_cons_self, hc]
  have hpart : ∀ d ∈ c :: rest, Name.isPart d = true :=
    List.forall_mem_cons.2 ⟨by simp [Name.isPart, hc], hrest⟩
  obtain ⟨htake, hdrop⟩ := Text.takeWhile_of_forall hpart
  rw [scan, hname, Bool.and_true, if_pos rfl, ← List.cons_append, scanMarked, hsplit]
  simp only [htake, hdrop]

theorem markedKind_of_isWritten {marks text : List Char}
    (h : (markedKind marks text).isWritten = true) :
    Name.isRule text = true ∧ markedKind marks text = .rule (String.ofList (marks ++ text)) := by
  unfold markedKind at h ⊢
  by_cases hrule : Name.isRule text = true
  · rw [if_pos hrule] at h ⊢
    refine ⟨hrule, ?_⟩
    split at h
    · contradiction
    · rename_i hnot
      rw [if_neg hnot]
  · rw [if_neg hrule] at h
    split at h <;> contradiction

theorem rescans_scanMarked {c : Char} {cs : List Char} (hc : isMark c = true)
    (h : (scanMarked (c :: cs)).kind.isWritten = true) : Rescans (scanMarked (c :: cs)).kind := by
  have hkind : (scanMarked (c :: cs)).kind = markedKind (splitMarks (c :: cs)).1
      ((splitMarks (c :: cs)).2.takeWhile Name.isPart) := rfl
  rw [hkind] at h ⊢
  obtain ⟨hrule, hwritten⟩ := markedKind_of_isWritten h
  have hne : (splitMarks (c :: cs)).1 ≠ [] := splitMarks_fst_ne_nil hc
  obtain ⟨m, marks, hmarks⟩ := List.exists_cons_of_ne_nil hne
  obtain ⟨d, rest, htext, hd⟩ := Name.exists_isStart_of_isRule hrule
  have hmark := isMark_of_mem_splitMarks (c :: cs)
  have hpart := Text.forall_mem_takeWhile (p := Name.isPart) (splitMarks (c :: cs)).2
  have hsplit := splitMarks_append_start (c :: cs) rest hd
  rw [hmarks] at hmark hsplit hwritten ⊢
  rw [htext] at hpart hwritten ⊢
  refine ⟨m, marks ++ d :: rest, ?_, ?_⟩
  · simp [hwritten, TokenKind.text]
  · exact scan_marked hmark hd (List.forall_mem_cons.1 hpart).2 hsplit

/-! ### Numbers -/

theorem scan_of_isDigit {c : Char} (h : c.isDigit = true) (opening : Bool) (cs : List Char) :
    scan opening c cs = scanNumber false (c :: cs) := by
  have hmark : isMark c = false := by
    by_contra hmark
    simp only [isMark, Bool.not_eq_false, Bool.or_eq_true, beq_iff_eq] at hmark
    rcases hmark with rfl | rfl <;> contradiction
  have hmarks : marksName (c :: cs) = false := by simp [marksName, hmark]
  rw [scan, hmarks, Bool.and_false, if_neg (by simp), if_pos h]

/-- A minus sign in front of a digit begins a number. -/
theorem scan_minus {c : Char} (h : c.isDigit = true) (opening : Bool) (cs : List Char) :
    scan opening '-' (c :: cs) = scanNumber true (c :: cs) := by
  have hne : c ≠ '>' := by
    rintro rfl
    contradiction
  simp [scan, marksName, isMark, Name.isStart, scanSymbol, h, hne]

theorem scanNumber_of_isDigit (negative : Bool) {digits : List Char}
    (h : ∀ c ∈ digits, c.isDigit = true) : scanNumber negative digits =
      ⟨integer negative digits, (if negative then ['-'] else []) ++ digits, []⟩ := by
  obtain ⟨htake, hdrop⟩ := Text.takeWhile_of_forall h
  rw [scanNumber, htake, hdrop]

/-- The digits of a number spell it. -/
theorem ofDigitChars_toDigits (n : ℕ) : Nat.ofDigitChars 10 (Nat.toDigits 10 n) 0 = n :=
  Nat.ofDigitChars_toDigits (by decide) (by decide)

theorem rescans_natural {n : ℕ} (h : n < numberBound) : Rescans (.number n) := by
  have hdigits : ∀ c ∈ Nat.toDigits 10 n, c.isDigit = true :=
    fun c hc => Nat.isDigit_of_mem_toDigits (by decide) (by decide) hc
  obtain ⟨c, cs, hcons⟩ := List.exists_cons_of_ne_nil (Nat.toDigits_ne_nil (n := n) (b := 10))
  have htext : (TokenKind.number n).text.toList = Nat.toDigits 10 n := String.toList_ofList
  refine ⟨c, cs, htext.trans hcons, ?_⟩
  rw [hcons] at hdigits
  rw [scan_of_isDigit (hdigits c List.mem_cons_self), scanNumber_of_isDigit false hdigits,
    ← hcons, integer, ofDigitChars_toDigits, if_neg (by simp), if_pos h]
  simp

theorem rescans_negative {n : ℕ} (hpos : 0 < n) (h : n ≤ numberBound) :
    Rescans (.number (-n)) := by
  have hdigits : ∀ c ∈ Nat.toDigits 10 n, c.isDigit = true :=
    fun c hc => Nat.isDigit_of_mem_toDigits (by decide) (by decide) hc
  obtain ⟨d, digits, hcons⟩ :=
    List.exists_cons_of_ne_nil (Nat.toDigits_ne_nil (n := n) (b := 10))
  have htext : (TokenKind.number (-n)).text.toList = '-' :: Nat.toDigits 10 n := by
    obtain ⟨m, rfl⟩ := Nat.exists_eq_succ_of_ne_zero hpos.ne'
    have hrepr : (TokenKind.number (-(m.succ : ℤ))).text = "-" ++ m.succ.repr := rfl
    rw [hrepr, String.toList_append, Nat.repr, String.toList_ofList]
    simp
  have hscan : scan true '-' (Nat.toDigits 10 n) = scanNumber true (Nat.toDigits 10 n) := by
    rw [hcons]
    exact scan_minus (hdigits d (by simp [hcons])) true digits
  refine ⟨'-', Nat.toDigits 10 n, htext, ?_⟩
  rw [hscan, scanNumber_of_isDigit true hdigits, integer, ofDigitChars_toDigits, if_pos rfl,
    if_pos h]
  simp

theorem rescans_scanNumber {negative : Bool} {cs : List Char}
    (h : (scanNumber negative cs).kind.isWritten = true) :
    Rescans (scanNumber negative cs).kind := by
  have hkind : (scanNumber negative cs).kind = integer negative (cs.takeWhile Char.isDigit) := rfl
  rw [hkind, integer] at h ⊢
  generalize Nat.ofDigitChars 10 (cs.takeWhile Char.isDigit) 0 = magnitude at h ⊢
  split at h
  · rename_i hnegative
    split at h
    · rename_i hle
      rw [if_pos hnegative, if_pos hle]
      rcases Nat.eq_zero_or_pos magnitude with rfl | hpos
      -- a negative zero is written as zero
      · exact rescans_natural (n := 0) (by decide)
      · exact rescans_negative hpos hle
    · contradiction
  · rename_i hnegative
    split at h
    · rename_i hlt
      rw [if_neg hnegative, if_pos hlt]
      exact rescans_natural hlt
    · contradiction

end Lexeme

/-! ### Literals -/

namespace Literal

/-- The text of a closed literal is read back. -/
theorem scanBody_text {delimiter : Char} (hdelimiter : delimiter ≠ '\\' ∧ delimiter ≠ '\n')
    {cs : List Char} (h : (scanBody delimiter cs).closed = true) (more : List Char) :
    scanBody delimiter ((scanBody delimiter cs).text ++ delimiter :: more) =
      ⟨(scanBody delimiter cs).text, true, more⟩ := by
  fun_induction scanBody delimiter cs with
  | case1 | case2 | case3 | case5 => contradiction
  | case4 c rest hne ih =>
      have ih := ih h
      simp only [Body.push, List.cons_append, List.nil_append]
      rw [scanBody, ih]
      · rfl
      · exact hne
  | case6 rest _ _ _ _ =>
      rw [List.nil_append, scanBody_cons hdelimiter.1 hdelimiter.2, if_pos rfl]
  | case7 c rest hlast _ hescape hnewline hc ih =>
      have ih := ih h
      simp only [Body.push, List.cons_append, List.nil_append]
      rw [scanBody_cons (ne_backslash hlast hescape) hnewline, if_neg hc, ih]
      rfl

/-- A literal begins as what it was read from. -/
theorem head?_text_append {delimiter : Char} {cs : List Char}
    (h : (scanBody delimiter cs).closed = true) (more : List Char) :
    ((scanBody delimiter cs).text ++ delimiter :: more).head? = cs.head? := by
  have happend := congrArg List.head? (scanBody_append delimiter cs)
  rw [Body.consumed, if_pos h] at happend
  rw [← happend]
  cases (scanBody delimiter cs).text <;> rfl

end Literal

namespace Lexeme

open TokenKind (Rescans isWritten)

theorem rescans_scanString {cs : List Char} (h : (scanString cs).kind.isWritten = true) :
    Rescans (scanString cs).kind := by
  have hclosed : (Literal.scanBody '"' cs).closed = true := by
    by_contra hopen
    rw [scanString, if_neg hopen] at h
    contradiction
  have hkind : (scanString cs).kind = .string (String.ofList (Literal.scanBody '"' cs).text)
      (Literal.hasCaseFlag (Literal.scanBody '"' cs).rest) := by
    rw [scanString, if_pos hclosed]
  have hbody := Literal.scanBody_text (by decide) hclosed
  rw [hkind]
  generalize (Literal.scanBody '"' cs).text = text at hbody ⊢
  cases Literal.hasCaseFlag (Literal.scanBody '"' cs).rest with
  | true =>
      refine ⟨'"', text ++ '"' :: ['i'], by simp [TokenKind.text], ?_⟩
      rw [scan_quote, scanString, hbody]
      simp [Literal.hasCaseFlag, Literal.Body.consumed]
  | false =>
      refine ⟨'"', text ++ '"' :: [], by simp [TokenKind.text], ?_⟩
      rw [scan_quote, scanString, hbody]
      simp [Literal.hasCaseFlag, Literal.Body.consumed]

theorem rescans_scanRegexp {cs : List Char} (hcs : cs.head? ≠ some '/')
    (h : (scanRegexp cs).kind.isWritten = true) : Rescans (scanRegexp cs).kind := by
  have hclosed : (Literal.scanBody '/' cs).closed = true := by
    by_contra hopen
    rw [scanRegexp, if_neg hopen] at h
    contradiction
  have hkind : (scanRegexp cs).kind = .regexp (String.ofList (Literal.scanBody '/' cs).text)
      (String.ofList ((Literal.scanBody '/' cs).rest.takeWhile Literal.isRegexpFlag)) := by
    rw [scanRegexp, if_pos hclosed]
  have hbody := Literal.scanBody_text (by decide) hclosed
  have hhead := Literal.head?_text_append hclosed
  obtain ⟨htake, hdrop⟩ := Text.takeWhile_of_forall
    (Text.forall_mem_takeWhile (p := Literal.isRegexpFlag) (Literal.scanBody '/' cs).rest)
  rw [hkind]
  generalize (Literal.scanBody '/' cs).text = text at hbody hhead ⊢
  generalize (Literal.scanBody '/' cs).rest.takeWhile Literal.isRegexpFlag = flags at htake hdrop ⊢
  refine ⟨'/', text ++ '/' :: flags, by simp [TokenKind.text], ?_⟩
  rw [scan_slash true (by rwa [hhead]), scanRegexp, hbody]
  simp [Literal.Body.consumed, htake, hdrop]

/-! ### All lexemes -/

theorem rescans_scanDirective {cs : List Char} (h : (scanDirective cs).kind.isWritten = true) :
    Rescans (scanDirective cs).kind := by
  simp only [scanDirective] at h ⊢
  split at h
  · rename_i hname
    obtain ⟨directive, hdirective⟩ := Option.isSome_iff_exists.1 hname
    rw [if_pos hname, ← Directive.name_of_ofName? hdirective]
    exact TokenKind.rescans_directive directive
  · split at h <;> contradiction

theorem rescans_scanSign {c : Char} {cs : List Char}
    (h : (scanSign c cs).kind.isWritten = true) : Rescans (scanSign c cs).kind := by
  unfold scanSign at h ⊢
  split
  · exact TokenKind.rescans_punctuation _
  · rename_i hsign
    rw [hsign] at h
    contradiction

theorem rescans_scanSymbol {c : Char} {cs : List Char}
    (h : (scanSymbol c cs).kind.isWritten = true) : Rescans (scanSymbol c cs).kind := by
  revert h
  fun_cases scanSymbol c cs with
  | case1 | case2 | case3 => exact fun _ => TokenKind.rescans_punctuation _
  | case4 cs _ _ => exact rescans_scanNumber
  | case5 | case6 cs | case7 cs =>
      intro h
      contradiction
  | case8 cs hslash =>
      refine rescans_scanRegexp fun hhead => ?_
      obtain ⟨rest, rfl⟩ := List.head?_eq_some_iff.1 hhead
      exact hslash rest rfl
  | case9 cs => exact rescans_scanString
  | case10 cs => exact rescans_scanDirective
  | case11 => exact rescans_scanSign

/-- **A lexeme is read back from how it is written**, if it has a writing of its own. -/
theorem rescans_scan (opening : Bool) (c : Char) (cs : List Char)
    (h : (scan opening c cs).kind.isWritten = true) : Rescans (scan opening c cs).kind := by
  unfold scan at h ⊢
  split
  · rename_i hmarks
    rw [if_pos hmarks] at h
    simp only [marksName, List.head?_cons, Option.any_some, Bool.and_eq_true] at hmarks
    exact rescans_scanMarked hmarks.2.1 h
  · rename_i hmarks
    rw [if_neg hmarks] at h
    split
    · rename_i hdigit
      rw [if_pos hdigit] at h
      exact rescans_scanNumber h
    · rename_i hdigit
      rw [if_neg hdigit] at h
      split
      · rename_i hstart
        rw [if_pos hstart] at h
        exact rescans_scanName hstart h
      · rename_i hstart
        rw [if_neg hstart] at h
        exact rescans_scanSymbol h

end Lexeme

namespace TokenKind

variable {kind other : TokenKind}

/-- What is read back is written like nothing else that is. -/
theorem Rescans.text_injective (h : kind.Rescans) (hother : other.Rescans)
    (htext : kind.text = other.text) : kind = other := by
  obtain ⟨c, cs, hkind, hscan⟩ := h
  obtain ⟨c', cs', hkind', hscan'⟩ := hother
  obtain ⟨rfl, rfl⟩ : c = c' ∧ cs = cs' := by
    rw [htext, hkind'] at hkind
    simpa [eq_comm] using hkind
  exact congrArg Lexeme.kind (hscan.symm.trans hscan')

/-- What is read back is written on one line, and begins with something visible. -/
theorem Rescans.legible (h : kind.Rescans) :
    '\n' ∉ kind.text.toList ∧ ∃ c cs, kind.text.toList = c :: cs ∧ c ≠ ' ' := by
  obtain ⟨c, cs, htext, hscan⟩ := h
  -- neither a line feed nor a space begins a token
  have hblank (hc : c = '\n' ∨ c = ' ') : False := by
    obtain rfl : kind = .malformed (.unexpectedCharacter c) := by
      refine (congrArg Lexeme.kind hscan).symm.trans ?_
      rcases hc with rfl | rfl <;>
        simp [Lexeme.scan, Lexeme.marksName, Lexeme.isMark, Name.isStart, Lexeme.scanSymbol,
          Lexeme.scanSign, Punctuation.ofChar?]
    rcases hc with rfl | rfl <;> simp [text, describe] at htext
  refine ⟨?_, c, cs, htext, fun hc => hblank (Or.inr hc)⟩
  rw [htext, List.mem_cons]
  rintro (hc | hmem)
  · exact hblank (Or.inl hc.symm)
  · obtain ⟨front, more, rfl⟩ := List.append_of_mem hmem
    rw [Lexeme.scan_append_newline] at hscan
    simpa [Lexeme.extend] using congrArg Lexeme.rest hscan

end TokenKind

/-- **Every token of a text is read back from how it is written**, if it has a writing of its
own. -/
theorem Token.rescans_of_mem {source : String} {token : Token} (h : token ∈ ofSource source)
    (hkind : token.kind.isWritten = true) : token.kind.Rescans := by
  refine @Scan.forall_mem_tokens (fun _ => True)
    (fun token => token.kind.isWritten = true → token.kind.Rescans) ?_ _ trivial token h hkind
  intro scan token after _ hstep
  refine ⟨fun hkind => ?_, trivial⟩
  cases hstep with
  | finish _ _ => contradiction
  | newline _ _ _ _ _ _ _ => contradiction
  | lexeme _ _ _ _ => exact Lexeme.rescans_scan _ _ _ hkind

end GrammarCatalog
