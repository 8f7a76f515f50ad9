/-
**Where lexemes end.**

A lexeme ends where a character comes that cannot go on with it: names and numbers end where their
class of characters does, and signs are known by a character or two.  Blanks, the signs that begin a
comment and most others divide lexemes in this way.  Comments and literals are different.  They go
on over anything up to the line feed, unless the closing delimiter of the literal has been found;
but no lexeme goes on over a line feed.  So a lexeme is the same whether the text ends behind it or
goes on there, with a line feed at any rate, and with a divider if it has not run on to the end.

Main definitions:

* `GrammarCatalog.Lexeme.extend` — the same lexeme in a text that goes on;
* `GrammarCatalog.Lexeme.isDivider` — the characters that go on with no name, number or sign;
* `GrammarCatalog.Lexeme.RunsOn` — a comment or an open literal has come to the end of the text;
* `GrammarCatalog.Lexeme.EndsAt` — a character ends a lexeme at the end of the text.

Main results:

* `GrammarCatalog.Literal.scanBody_append_cons` — a literal ends on its line, closed or not;
* `GrammarCatalog.Lexeme.scan_append` — **what ends a lexeme leaves it as it is**;
* `GrammarCatalog.Lexeme.scan_append_newline` — a line feed ends every lexeme.
-/

import GrammarCatalog.Token.Lexeme

set_option relaxedAutoImplicit false
set_option autoImplicit false

namespace GrammarCatalog

/-! ### Runs of characters and literals -/

namespace Text

variable {p : Char → Bool} {d : Char}

/-- A run of characters ends at one that is not of their class. -/
theorem takeWhile_append_of_neg (hd : p d = false) (cs more : List Char) :
    (cs ++ d :: more).takeWhile p = cs.takeWhile p := by
  induction cs with
  | nil => simp [hd]
  | cons c cs ih => rw [List.cons_append, List.takeWhile_cons, List.takeWhile_cons, ih]

theorem dropWhile_append_of_neg (hd : p d = false) (cs more : List Char) :
    (cs ++ d :: more).dropWhile p = cs.dropWhile p ++ d :: more := by
  induction cs with
  | nil => simp [hd]
  | cons c cs ih =>
      rw [List.cons_append, List.dropWhile_cons, List.dropWhile_cons, ih]
      split <;> rfl

/-- A run that has ended is the same whatever comes behind. -/
theorem takeWhile_append_of_ne_nil {cs : List Char} (h : cs.dropWhile p ≠ []) (more : List Char) :
    (cs ++ more).takeWhile p = cs.takeWhile p := by
  induction cs with
  | nil => exact absurd rfl h
  | cons c cs ih =>
      rw [List.cons_append, List.takeWhile_cons, List.takeWhile_cons]
      split
      · rename_i hc
        rw [ih (by rwa [List.dropWhile_cons, if_pos hc] at h)]
      · rfl

theorem dropWhile_append_of_ne_nil {cs : List Char} (h : cs.dropWhile p ≠ []) (more : List Char) :
    (cs ++ more).dropWhile p = cs.dropWhile p ++ more := by
  induction cs with
  | nil => exact absurd rfl h
  | cons c cs ih =>
      rw [List.cons_append, List.dropWhile_cons, List.dropWhile_cons]
      split
      · rename_i hc
        rw [ih (by rwa [List.dropWhile_cons, if_pos hc] at h)]
      · rfl

end Text

namespace Literal

/-- A character that is neither a backslash nor a line feed closes a literal or is in it. -/
theorem scanBody_cons {delimiter c : Char} (hbackslash : c ≠ '\\') (hnewline : c ≠ '\n')
    (rest : List Char) : scanBody delimiter (c :: rest) =
      if c = delimiter then ⟨[], true, rest⟩ else (scanBody delimiter rest).push [c] := by
  rw [scanBody] <;> simp_all

/-- A character that begins no escape is no backslash. -/
theorem ne_backslash {c : Char} {rest : List Char} (hlast : c = '\\' → rest = [] → False)
    (hescape : ∀ d others, c = '\\' → rest = d :: others → False) : c ≠ '\\' := by
  rintro rfl
  cases rest with
  | nil => exact hlast rfl rfl
  | cons d others => exact hescape d others rfl rfl

/-- A literal that is closed, or was left open on its line, is the same whatever comes behind; and
one that comes to the end of the text ends at a line feed. -/
theorem scanBody_append_cons {delimiter d : Char} {cs : List Char}
    (h : d = '\n' ∨ (scanBody delimiter cs).closed = true ∨ (scanBody delimiter cs).rest ≠ [])
    (more : List Char) : scanBody delimiter (cs ++ d :: more) =
      { scanBody delimiter cs with rest := (scanBody delimiter cs).rest ++ d :: more } := by
  fun_induction scanBody delimiter cs with
  | case1 | case2 =>
      obtain rfl : d = '\n' := by simpa using h
      simp [scanBody]
  | case3 | case5 => simp [scanBody]
  | case4 c rest hne ih => simp [scanBody, ih h, Body.push]
  | case6 rest hlast _ hescape hnewline =>
      rw [List.cons_append, scanBody_cons (ne_backslash hlast hescape) hnewline, if_pos rfl]
  | case7 c rest hlast _ hescape hnewline hc ih =>
      rw [List.cons_append, scanBody_cons (ne_backslash hlast hescape) hnewline, if_neg hc, ih h]
      rfl

theorem hasCaseFlag_append_cons {d : Char} (hd : Name.isPart d = false) (cs more : List Char) :
    hasCaseFlag (cs ++ d :: more) = hasCaseFlag cs := by
  have hne : d ≠ 'i' := by
    rintro rfl
    contradiction
  rcases cs with _ | ⟨c, _ | ⟨e, rest⟩⟩
  · simp [hasCaseFlag, hne]
  · by_cases hc : c = 'i'
    · subst hc
      simp [hasCaseFlag, hd]
    · simp [hasCaseFlag, hc]
  · by_cases hc : c = 'i'
    · subst hc
      rfl
    · simp [hasCaseFlag, hc]

theorem isRegexpFlag_eq_false {d : Char} (hd : Name.isPart d = false) : isRegexpFlag d = false := by
  rw [← Bool.not_eq_true]
  intro hflag
  simp only [isRegexpFlag, List.contains_iff_mem, List.mem_cons, List.not_mem_nil,
    or_false] at hflag
  rcases hflag with rfl | rfl | rfl | rfl | rfl | rfl <;> contradiction

end Literal

/-! ### Lexemes -/

namespace Lexeme

/-- The same lexeme in a text that goes on. -/
def extend (lexeme : Lexeme) (more : List Char) : Lexeme :=
  { lexeme with rest := lexeme.rest ++ more }

/-- A character that goes on with no name, number or sign. -/
def isDivider (d : Char) : Bool := !(Name.isPart d || isMark d || d == '.' || d == '>')

/-- A comment, or a literal that is left open. -/
def isOpen : TokenKind → Bool
  | .comment _ | .malformed .unterminatedString | .malformed .unterminatedRegexp => true
  | _ => false

/-- A comment or an open literal has come to the end of the text, and might go on. -/
def RunsOn (lexeme : Lexeme) : Prop := isOpen lexeme.kind = true ∧ lexeme.rest = []

/-- A character ends a lexeme at the end of the text: a line feed any, and other dividers those that
have not run on. -/
def EndsAt (lexeme : Lexeme) (d : Char) : Prop :=
  isDivider d = true ∧ (d = '\n' ∨ ¬lexeme.RunsOn)

variable {d : Char} {cs : List Char}

theorem isDivider_iff : isDivider d = true ↔
    Name.isPart d = false ∧ isMark d = false ∧ d ≠ '.' ∧ d ≠ '>' := by
  simp [isDivider, and_assoc]

theorem isStart_eq_false (hd : Name.isPart d = false) : Name.isStart d = false :=
  (Bool.or_eq_false_iff.1 hd).1

theorem isDigit_eq_false (hd : Name.isPart d = false) : d.isDigit = false :=
  (Bool.or_eq_false_iff.1 hd).2

theorem scanComment_append (h : (scanComment cs).EndsAt d) (more : List Char) :
    scanComment (cs ++ d :: more) = (scanComment cs).extend (d :: more) := by
  have hline : Text.firstLine (cs ++ d :: more) = Text.firstLine cs ∧
      (cs ++ d :: more).dropWhile (· != '\n') = cs.dropWhile (· != '\n') ++ d :: more := by
    rcases h.2 with rfl | hruns
    · exact ⟨Text.takeWhile_append_of_neg rfl cs more, Text.dropWhile_append_of_neg rfl cs more⟩
    · have hne : cs.dropWhile (· != '\n') ≠ [] := fun hnil => hruns ⟨rfl, hnil⟩
      exact ⟨Text.takeWhile_append_of_ne_nil hne _, Text.dropWhile_append_of_ne_nil hne _⟩
  rw [scanComment, hline.1, hline.2]
  rfl

theorem scanString_append (h : (scanString cs).EndsAt d) (more : List Char) :
    scanString (cs ++ d :: more) = (scanString cs).extend (d :: more) := by
  have hpart := (isDivider_iff.1 h.1).1
  by_cases hclosed : (Literal.scanBody '"' cs).closed = true
  · simp only [scanString, Literal.scanBody_append_cons (Or.inr (Or.inl hclosed)),
      Literal.hasCaseFlag_append_cons hpart]
    by_cases hflag : Literal.hasCaseFlag (Literal.scanBody '"' cs).rest = true
    · have hrest := hasCaseFlag_eq_true hflag
      rw [if_pos hclosed, if_pos hclosed, hflag]
      simp only [if_true, extend, Literal.Body.consumed]
      rw [← hrest]
      rfl
    · rw [if_pos hclosed, if_pos hclosed, Bool.eq_false_iff.2 hflag]
      rfl
  · have hbody : d = '\n' ∨ (Literal.scanBody '"' cs).closed = true ∨
        (Literal.scanBody '"' cs).rest ≠ [] := by
      refine h.2.imp_right fun hruns => Or.inr fun hnil => hruns ?_
      rw [scanString, if_neg hclosed]
      exact ⟨rfl, hnil⟩
    simp only [scanString, Literal.scanBody_append_cons hbody]
    rw [if_neg hclosed, if_neg hclosed]
    rfl

theorem scanRegexp_append (h : (scanRegexp cs).EndsAt d) (more : List Char) :
    scanRegexp (cs ++ d :: more) = (scanRegexp cs).extend (d :: more) := by
  have hflag := Literal.isRegexpFlag_eq_false (isDivider_iff.1 h.1).1
  have hbody : d = '\n' ∨ (Literal.scanBody '/' cs).closed = true ∨
      (Literal.scanBody '/' cs).rest ≠ [] := by
    refine h.2.imp_right fun hruns => ?_
    by_cases hclosed : (Literal.scanBody '/' cs).closed = true
    · exact Or.inl hclosed
    · refine Or.inr fun hnil => hruns ?_
      rw [scanRegexp, if_neg hclosed]
      exact ⟨rfl, hnil⟩
  simp only [scanRegexp, Literal.scanBody_append_cons hbody, Text.takeWhile_append_of_neg hflag,
    Text.dropWhile_append_of_neg hflag]
  split <;> rfl

theorem scanNumber_append_cons (hd : Name.isPart d = false) (negative : Bool)
    (cs more : List Char) :
    scanNumber negative (cs ++ d :: more) = (scanNumber negative cs).extend (d :: more) := by
  have hdigit := isDigit_eq_false hd
  simp only [scanNumber, Text.takeWhile_append_of_neg hdigit, Text.dropWhile_append_of_neg hdigit,
    extend]

theorem scanName_append (hd : Name.isPart d = false) (cs more : List Char) :
    scanName (cs ++ d :: more) = (scanName cs).extend (d :: more) := by
  simp only [scanName, Text.takeWhile_append_of_neg hd, Text.dropWhile_append_of_neg hd, extend]

theorem scanDirective_append (hd : Name.isPart d = false) (cs more : List Char) :
    scanDirective (cs ++ d :: more) = (scanDirective cs).extend (d :: more) := by
  simp only [scanDirective, Text.takeWhile_append_of_neg hd, Text.dropWhile_append_of_neg hd,
    extend]

theorem splitMarks_append_cons (hd : isMark d = false) (cs more : List Char) :
    splitMarks (cs ++ d :: more) = ((splitMarks cs).1, (splitMarks cs).2 ++ d :: more) := by
  have hne : d ≠ '!' ∧ d ≠ '?' := by simpa [isMark] using hd
  rcases cs with _ | ⟨c, _ | ⟨e, cs⟩⟩
  · simp [splitMarks, hne]
  · by_cases hbang : c = '!'
    · subst hbang
      simp [splitMarks, hne]
    · by_cases hquestion : c = '?'
      · subst hquestion
        rfl
      · simp [splitMarks, hbang, hquestion]
  · by_cases hbang : c = '!'
    · subst hbang
      by_cases hquestion : e = '?'
      · subst hquestion
        rfl
      · simp [splitMarks, hquestion]
    · by_cases hquestion : c = '?'
      · subst hquestion
        rfl
      · simp [splitMarks, hbang, hquestion]

theorem scanMarked_append (hd : isDivider d = true) (cs more : List Char) :
    scanMarked (cs ++ d :: more) = (scanMarked cs).extend (d :: more) := by
  obtain ⟨hpart, hmark, -⟩ := isDivider_iff.1 hd
  simp only [scanMarked, splitMarks_append_cons hmark, Text.takeWhile_append_of_neg hpart,
    Text.dropWhile_append_of_neg hpart, extend]

theorem marksName_append (hd : isDivider d = true) (c : Char) (cs more : List Char) :
    marksName (c :: cs ++ d :: more) = marksName (c :: cs) := by
  obtain ⟨hpart, hmark, -⟩ := isDivider_iff.1 hd
  have hstart := isStart_eq_false hpart
  rw [marksName, marksName, Text.dropWhile_append_of_neg hmark]
  congr 1
  cases (c :: cs).dropWhile isMark with
  | nil => simpa using hstart
  | cons e rest => rfl

theorem scanSymbol_append {c : Char} (h : (scanSymbol c cs).EndsAt d) (more : List Char) :
    scanSymbol c (cs ++ d :: more) = (scanSymbol c cs).extend (d :: more) := by
  obtain ⟨hpart, -, hdot, harrow⟩ := isDivider_iff.1 h.1
  fun_cases scanSymbol c cs with
  | case1 | case3 => rfl
  | case2 cs hne =>
      cases cs with
      | nil => simp [scanSymbol, extend, hdot]
      | cons e cs => simp_all [scanSymbol, extend]
  | case4 cs hne hdigit =>
      cases cs with
      | nil => contradiction
      | cons e cs =>
          rw [← scanNumber_append_cons hpart]
          simp_all [scanSymbol]
  | case5 cs hne hdigit =>
      cases cs with
      | nil => simp [scanSymbol, extend, harrow, isDigit_eq_false hpart]
      | cons e cs => simp_all [scanSymbol, extend]
  | case6 cs =>
      rw [scanSymbol]
      exact scanComment_append h more
  | case7 cs => exact scanComment_append h more
  | case8 cs hslash =>
      cases cs with
      | nil =>
          -- a slash alone is an open regular expression
          have hruns : (scanSymbol '/' []).RunsOn := ⟨rfl, rfl⟩
          obtain rfl := h.2.resolve_right fun hnot => hnot hruns
          rfl
      | cons e cs =>
          have hregexp (cs : List Char) : scanSymbol '/' (e :: cs) = scanRegexp (e :: cs) := by
            simp_all [scanSymbol]
          rw [hregexp] at h
          rw [List.cons_append, hregexp, ← List.cons_append]
          exact scanRegexp_append h more
  | case9 cs =>
      rw [scanSymbol]
      exact scanString_append h more
  | case10 cs =>
      rw [scanSymbol]
      exact scanDirective_append hpart cs more
  | case11 =>
      have hsign : (scanSign c cs).extend (d :: more) = scanSign c (cs ++ d :: more) := by
        unfold scanSign
        split <;> rfl
      rw [hsign, scanSymbol] <;> simp_all

/-- **What ends a lexeme leaves it as it is**, whatever comes behind. -/
theorem scan_append {opening : Bool} {c : Char} (h : (scan opening c cs).EndsAt d)
    (more : List Char) :
    scan opening c (cs ++ d :: more) = (scan opening c cs).extend (d :: more) := by
  have hpart := (isDivider_iff.1 h.1).1
  unfold scan at h ⊢
  rw [← List.cons_append, marksName_append h.1, scanMarked_append h.1,
    scanNumber_append_cons hpart, scanName_append hpart]
  split
  · rfl
  · rename_i hmarks
    rw [if_neg hmarks] at h
    split
    · rfl
    · rename_i hdigit
      rw [if_neg hdigit] at h
      split
      · rfl
      · rename_i hstart
        rw [if_neg hstart] at h
        exact scanSymbol_append h more

/-- A line feed ends every lexeme. -/
theorem scan_append_newline (cs more : List Char) (opening : Bool) (c : Char) :
    scan opening c (cs ++ '\n' :: more) = (scan opening c cs).extend ('\n' :: more) :=
  scan_append ⟨by decide, Or.inl rfl⟩ more

end Lexeme

end GrammarCatalog
