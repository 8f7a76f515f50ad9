/-
**What tokens say of the text.**

A token carries what it was read from: names, directives, signs and comments as they are written,
literals and their flags without delimiters, and numbers by their value.  Here the spelling of every
kind is stated without a look at the scanner, together with what may stand behind it, so that tokens
are as long as they can be: no name goes on behind a name, no digit behind a number and no flag
behind flags.

Main definitions:

* `GrammarCatalog.Pattern.signed` — the integer that digits spell, with its sign;
* `GrammarCatalog.TokenKind.ReadFrom`, `GrammarCatalog.LexicalError.ReadFrom` — **spellings**: the
  characters that a kind is read from, and what may stand behind them;
* `GrammarCatalog.TokenKind.IsFaithful` — a kind is read from characters, and from as many of them
  as there are.

Main results:

* `GrammarCatalog.Lexeme.isRead_scan`, `GrammarCatalog.Lexeme.isFaithful_scan` — a lexeme is read
  from the characters it takes, and takes as many as it can;
* `GrammarCatalog.Scan.Step.isFaithful` — so does a step;
* `GrammarCatalog.Token.isFaithful_of_mem` — **tokens are faithful to the text**.
-/

import GrammarCatalog.Proofs.Text.Places
import GrammarCatalog.Proofs.Token.Coverage
import GrammarCatalog.Proofs.Token.Patterns
import GrammarCatalog.Proofs.Token.Rescanned

set_option relaxedAutoImplicit false
set_option autoImplicit false

namespace GrammarCatalog

open Text (IsRun byteLength isBlank)
open Pattern (Unclosed inside)

/-! ### Spellings -/

namespace Pattern

/-- A minus sign or nothing. -/
def minus (negative : Bool) : List Char := if negative then ['-'] else []

/-- The integer that digits spell behind a minus sign or without. -/
def signed (negative : Bool) (digits : List Char) : ℤ :=
  if negative then -(Nat.ofDigitChars 10 digits 0) else Nat.ofDigitChars 10 digits 0

/-- The integers of 64 bits with sign. -/
def Fits (value : ℤ) : Prop := -2 ^ 63 ≤ value ∧ value < 2 ^ 63

instance (value : ℤ) : Decidable (Fits value) := inferInstanceAs (Decidable (_ ∧ _))

/-- A number: a minus sign or nothing, and digits, of which no other follows. -/
def IsNumber (negative : Bool) (digits text rest : List Char) : Prop :=
  text = minus negative ++ digits ∧ digits ≠ [] ∧ IsRun Char.isDigit digits rest

end Pattern

open Pattern (Fits IsNumber minus signed)

/-- The characters that a stretch of text is made of that is no token, and what may stand behind
them. -/
def LexicalError.ReadFrom (cause : LexicalError) (text rest : List Char) : Prop :=
  match cause with
  | loneMinus => text = ['-'] ∧ ∀ c ∈ rest.head?, c ≠ '>' ∧ c.isDigit = false
  | unterminatedString => Unclosed '"' text rest
  | unterminatedRegexp => Unclosed '/' text rest
  | numberTooLarge => ∃ digits, IsNumber false digits text rest ∧ ¬Fits (signed false digits)
  | numberTooSmall => ∃ digits, IsNumber true digits text rest ∧ ¬Fits (signed true digits)
  | missingDirectiveName => text = ['%'] ∧ ∀ c ∈ rest.head?, Name.isPart c = false
  | unknownDirective name =>
      text = '%' :: name.toList ∧ IsRun Name.isPart name.toList rest ∧ name ≠ "" ∧
        ∀ directive : Directive, name ≠ directive.name
  | invalidName name =>
      ∃ marks, text = marks ++ name.toList ∧ (∀ c ∈ marks, c = '!' ∨ c = '?') ∧
        IsRun Name.isPart name.toList rest
  | inlinedAndConditional spelling | markedTerminal spelling =>
      text = spelling.toList ∧ ∀ c ∈ rest.head?, Name.isPart c = false
  | unexpectedCharacter c => text = [c]

/-- **The characters that a kind is read from**, and what may stand behind them. -/
def TokenKind.ReadFrom (kind : TokenKind) (text rest : List Char) : Prop :=
  match kind with
  | rule name =>
      text = name.toList ∧ text ∈ Pattern.ruleName ∧ ∀ c ∈ rest.head?, Name.isPart c = false
  | terminal name =>
      text = name.toList ∧ text ∈ Pattern.terminalName ∧ ∀ c ∈ rest.head?, Name.isPart c = false
  | string content ignoreCase =>
      text = '"' :: (content.toList ++ '"' :: if ignoreCase then ['i'] else []) ∧
        content.toList ∈ inside '"' ∧
        if ignoreCase then ∀ c ∈ rest.head?, Name.isPart c = false
        else ∀ more, rest = 'i' :: more → ∃ c ∈ more.head?, Name.isPart c = true
  | regexp pattern flags =>
      text = '/' :: (pattern.toList ++ '/' :: flags.toList) ∧ pattern ≠ "" ∧
        pattern.toList ∈ inside '/' ∧
          IsRun (fun c => ['i', 'm', 's', 'l', 'u', 'x'].contains c) flags.toList rest
  | number value =>
      ∃ negative digits, IsNumber negative digits text rest ∧ value = signed negative digits ∧
        Fits value
  | directive name =>
      text = '%' :: name.toList ∧ IsRun Name.isPart name.toList rest ∧
        ∃ directive : Directive, name = directive.name
  | punctuation sign => text = sign.text.toList
  | newline => text.head? = some '\n' ∧ IsRun isBlank text rest
  | comment content =>
      (text.head? = some '#' ∨ ['/', '/'] <+: text) ∧ IsRun (· != '\n') text rest ∧
        ∃ returns, text = content.toList ++ returns ∧ (∀ c ∈ returns, c = '\r') ∧
          content.toList.getLast? ≠ some '\r'
  | endOfInput => text = [] ∧ rest = []
  | malformed cause => cause.ReadFrom text rest

/-- **A token is faithful to the characters that it covers**, given what stands behind them. -/
structure TokenKind.IsFaithful (kind : TokenKind) (text rest : List Char) : Prop where
  /-- It is read from them. -/
  readFrom : kind.ReadFrom text rest
  /-- At a letter or an underscore, they are all the name characters that stand there. -/
  name : ∀ c ∈ text.head?, Name.isStart c = true → IsRun Name.isPart text rest
  /-- At digits, or a minus sign in front of them, they are all the digits that stand there.  The
  token is the number that they spell if 64 bits hold it, and no token else. -/
  number : ∀ negative digits more, text ++ rest = minus negative ++ (digits ++ more) →
    digits ≠ [] → IsRun Char.isDigit digits more → text = minus negative ++ digits ∧
      kind = if Fits (signed negative digits) then .number (signed negative digits)
        else .malformed (if negative then .numberTooSmall else .numberTooLarge)

namespace Lexeme

/-- A lexeme is read from the characters it takes. -/
def IsRead (lexeme : Lexeme) : Prop := lexeme.kind.ReadFrom lexeme.text lexeme.rest

/-! ### Names and directives -/

theorem isRead_scanName (cs : List Char) : (scanName cs).IsRead := by
  have hrun := Text.isRun_takeWhile Name.isPart cs
  unfold IsRead scanName nameKind
  dsimp only
  generalize cs.takeWhile Name.isPart = text at hrun ⊢
  split
  · rename_i hrule
    have hdeclared : Decomposition.IsDeclared text := by
      simpa using isDeclared_of_isRule false hrule
    exact ⟨by simp, Pattern.mem_ruleName_of_isDeclared hdeclared, hrun.2⟩
  · split
    · rename_i hterminal
      exact ⟨by simp, Pattern.mem_terminalName hterminal, hrun.2⟩
    · exact ⟨[], by simp, by simp, by simpa using hrun⟩

theorem isRead_scanMarked (cs : List Char) : (scanMarked cs).IsRead := by
  have hrun := Text.isRun_takeWhile Name.isPart (splitMarks cs).2
  have hdeclared (name : String) (hkind : (scanMarked cs).kind = .rule name) :=
    isDeclared_of_scanMarked hkind
  have hmarks : ∀ c ∈ (splitMarks cs).1, c = '!' ∨ c = '?' := by
    intro c hc
    simpa [isMark] using isMark_of_mem_splitMarks cs c hc
  unfold IsRead
  unfold scanMarked markedKind at hdeclared ⊢
  dsimp only at hdeclared ⊢
  generalize (splitMarks cs).2.takeWhile Name.isPart = text at hrun hdeclared ⊢
  generalize (splitMarks cs).1 = marks at hmarks hdeclared ⊢
  split
  · rename_i hrule
    rw [if_pos hrule] at hdeclared
    split
    · exact ⟨by simp, hrun.2⟩
    · rename_i hmark
      rw [if_neg hmark] at hdeclared
      have hdeclared := hdeclared _ rfl
      rw [String.toList_ofList] at hdeclared
      exact ⟨by simp, Pattern.mem_ruleName_of_isDeclared hdeclared, hrun.2⟩
  · split
    · exact ⟨by simp, hrun.2⟩
    · exact ⟨marks, by simp, hmarks, by simpa using hrun⟩

theorem isRead_scanDirective (cs : List Char) : (scanDirective cs).IsRead := by
  have hrun := Text.isRun_takeWhile Name.isPart cs
  unfold IsRead scanDirective
  dsimp only
  generalize cs.takeWhile Name.isPart = text at hrun ⊢
  split
  · rename_i hname
    obtain ⟨directive, hdirective⟩ := Option.isSome_iff_exists.1 hname
    exact ⟨by simp, by simpa using hrun, directive, (Directive.name_of_ofName? hdirective).symm⟩
  · rename_i hname
    split
    · rename_i hempty
      obtain rfl : text = [] := by simpa using hempty
      exact ⟨rfl, hrun.2⟩
    · rename_i hempty
      refine ⟨by simp, by simpa using hrun, ?_, ?_⟩
      · simpa [← String.toList_inj] using hempty
      · intro directive heq
        rw [heq, Directive.ofName?_name] at hname
        exact hname rfl

/-! ### Literals -/

/-- The letter `i` is a flag if no name character follows. -/
theorem hasCaseFlag_cons (cs : List Char) :
    Literal.hasCaseFlag ('i' :: cs) = !cs.head?.any Name.isPart := by
  cases cs <;> rfl

theorem isRead_scanString (cs : List Char) : (scanString cs).IsRead := by
  unfold IsRead scanString
  dsimp only
  split
  · rename_i hclosed
    have hinside := Pattern.text_scanBody_mem_inside hclosed
    rw [Literal.Body.consumed, if_pos hclosed]
    generalize (Literal.scanBody '"' cs).text = content at hinside ⊢
    generalize (Literal.scanBody '"' cs).rest = rest
    refine ⟨by simp, by simpa using hinside, ?_⟩
    split
    · rename_i hflag
      rw [← hasCaseFlag_eq_true hflag, hasCaseFlag_cons, Bool.not_eq_true'] at hflag
      exact (Option.any_eq_false _ _).1 hflag
    · rename_i hflag
      rintro more rfl
      rw [hasCaseFlag_cons, Bool.not_eq_true', Bool.not_eq_false] at hflag
      exact (Option.any_eq_true _ _).1 hflag
  · rename_i hopen
    have hunclosed := Pattern.unclosed_scanBody hopen
    rw [Literal.Body.consumed, if_neg hopen, List.append_nil]
    exact hunclosed

theorem isRead_scanRegexp {cs : List Char} (hcs : cs.head? ≠ some '/') :
    (scanRegexp cs).IsRead := by
  have hflags := Text.isRun_takeWhile Literal.isRegexpFlag (Literal.scanBody '/' cs).rest
  unfold IsRead scanRegexp
  dsimp only
  split
  · rename_i hclosed
    have hinside := Pattern.text_scanBody_mem_inside hclosed
    have hhead := Literal.head?_text_append hclosed []
    rw [Literal.Body.consumed, if_pos hclosed]
    generalize (Literal.scanBody '/' cs).text = pattern at hinside hhead ⊢
    refine ⟨by simp, ?_, by simpa using hinside, ?_⟩
    · intro hempty
      rw [← String.toList_inj, String.toList_ofList, String.toList_empty] at hempty
      rw [hempty] at hhead
      exact hcs hhead.symm
    · rw [String.toList_ofList]
      exact hflags
  · rename_i hopen
    have hunclosed := Pattern.unclosed_scanBody hopen
    rw [Literal.Body.consumed, if_neg hopen, List.append_nil]
    exact hunclosed

/-! ### Numbers -/

theorem integer_eq (negative : Bool) (digits : List Char) :
    integer negative digits =
      if Fits (signed negative digits) then .number (signed negative digits)
      else .malformed (if negative then .numberTooSmall else .numberTooLarge) := by
  have hbound : (numberBound : ℤ) = 2 ^ 63 := rfl
  unfold integer Fits signed
  dsimp only
  generalize Nat.ofDigitChars 10 digits 0 = magnitude
  cases negative with
  | false =>
      simp only [Bool.false_eq_true, if_false]
      congr 1
      rw [eq_iff_iff]
      omega
  | true =>
      simp only [if_true]
      congr 1
      rw [eq_iff_iff]
      omega

theorem isRead_scanNumber {negative : Bool} {cs : List Char}
    (hcs : cs.head?.any Char.isDigit = true) : (scanNumber negative cs).IsRead := by
  have hrun := Text.isRun_takeWhile Char.isDigit cs
  have hne : cs.takeWhile Char.isDigit ≠ [] := by
    cases cs with
    | nil => contradiction
    | cons c cs =>
        rw [List.head?_cons, Option.any_some] at hcs
        simp [hcs]
  unfold IsRead scanNumber
  dsimp only
  rw [integer_eq]
  generalize cs.takeWhile Char.isDigit = digits at hrun hne ⊢
  have hnumber : IsNumber negative digits (minus negative ++ digits) (cs.dropWhile Char.isDigit) :=
    ⟨rfl, hne, hrun⟩
  split
  · rename_i hfits
    exact ⟨negative, digits, hnumber, rfl, hfits⟩
  · rename_i hfits
    cases negative with
    | false => exact ⟨digits, hnumber, hfits⟩
    | true => exact ⟨digits, hnumber, hfits⟩

/-! ### Signs and comments -/

theorem isRead_scanComment {cs : List Char} (h : cs.head? = some '#' ∨ ['/', '/'] <+: cs) :
    (scanComment cs).IsRead := by
  refine ⟨?_, Text.isRun_takeWhile _ cs, ?_⟩
  · rcases h with hhead | ⟨rest, rfl⟩
    · obtain ⟨rest, rfl⟩ := List.head?_eq_some_iff.1 hhead
      simp [scanComment, Text.firstLine]
    · simp [scanComment, Text.firstLine]
  · rw [String.toList_ofList]
    exact Text.exists_eq_trimReturns_append (Text.firstLine cs)

theorem isRead_scanSign (c : Char) (cs : List Char) : (scanSign c cs).IsRead := by
  unfold IsRead scanSign
  split
  · rename_i sign hsign
    have htext := congrArg String.toList (Punctuation.text_of_ofChar? hsign)
    rw [String.toList_ofList] at htext
    exact htext.symm
  · rfl

theorem isRead_scanSymbol (c : Char) (cs : List Char) : (scanSymbol c cs).IsRead := by
  fun_cases scanSymbol c cs with
  | case1 | case2 | case3 => rfl
  | case4 cs _ hdigit => exact isRead_scanNumber hdigit
  | case5 cs harrow hdigit =>
      refine ⟨rfl, fun c hc => ⟨?_, ?_⟩⟩
      · rintro rfl
        obtain ⟨rest, rfl⟩ := List.head?_eq_some_iff.1 hc
        exact harrow rest rfl
      · rw [Option.mem_def.1 hc] at hdigit
        simpa using hdigit
  | case6 cs => exact isRead_scanComment (Or.inl rfl)
  | case7 cs => exact isRead_scanComment (Or.inr ⟨cs, rfl⟩)
  | case8 cs hslash =>
      refine isRead_scanRegexp fun hhead => ?_
      obtain ⟨rest, rfl⟩ := List.head?_eq_some_iff.1 hhead
      exact hslash rest rfl
  | case9 cs => exact isRead_scanString cs
  | case10 cs => exact isRead_scanDirective cs
  | case11 => exact isRead_scanSign c cs

/-- **A lexeme is read from the characters it takes.** -/
theorem isRead_scan (opening : Bool) (c : Char) (cs : List Char) :
    (scan opening c cs).IsRead := by
  unfold scan
  split
  · exact isRead_scanMarked _
  · split
    · rename_i hdigit
      exact isRead_scanNumber hdigit
    · split
      · exact isRead_scanName _
      · exact isRead_scanSymbol c cs

/-! ### Tokens are as long as they can be -/

/-- A lexeme begins with the character that stands there. -/
theorem head?_text_scan (opening : Bool) (c : Char) (cs : List Char) :
    (scan opening c cs).text.head? = some c := by
  have happend := congrArg List.head? (text_append_rest_scan opening c cs)
  rwa [List.head?_append_of_ne_nil _ (text_scan_ne_nil opening c cs)] at happend

theorem isRun_scan {c : Char} (h : Name.isStart c = true) (opening : Bool) (cs : List Char) :
    IsRun Name.isPart (scan opening c cs).text (scan opening c cs).rest := by
  rw [scan_of_isStart h]
  exact Text.isRun_takeWhile Name.isPart (c :: cs)

theorem scanNumber_append (negative : Bool) {digits more : List Char}
    (h : IsRun Char.isDigit digits more) : scanNumber negative (digits ++ more) =
      ⟨integer negative digits, minus negative ++ digits, more⟩ := by
  rw [scanNumber, h.takeWhile_eq, h.dropWhile_eq]
  rfl

/-- Where digits stand, all of them are taken, with the minus sign in front of them. -/
theorem scan_digits {c : Char} {cs digits more : List Char} {negative : Bool}
    (hcs : c :: cs = minus negative ++ (digits ++ more)) (hne : digits ≠ [])
    (hrun : IsRun Char.isDigit digits more) (opening : Bool) :
    scan opening c cs = ⟨integer negative digits, minus negative ++ digits, more⟩ := by
  obtain ⟨d, digits, rfl⟩ := List.exists_cons_of_ne_nil hne
  have hd : d.isDigit = true := hrun.1 d List.mem_cons_self
  cases negative with
  | false =>
      obtain ⟨rfl, rfl⟩ := List.cons.inj hcs
      rw [scan_of_isDigit hd]
      exact scanNumber_append false hrun
  | true =>
      change c :: cs = '-' :: (d :: (digits ++ more)) at hcs
      obtain ⟨rfl, rfl⟩ := List.cons.inj hcs
      rw [scan_minus hd]
      exact scanNumber_append true hrun

theorem isFaithful_scan (opening : Bool) (c : Char) (cs : List Char) :
    (scan opening c cs).kind.IsFaithful (scan opening c cs).text (scan opening c cs).rest where
  readFrom := isRead_scan opening c cs
  name := by
    intro d hd hstart
    obtain rfl : c = d := by simpa [head?_text_scan] using hd
    exact isRun_scan hstart opening cs
  number := by
    intro negative digits more htext hne hrun
    rw [text_append_rest_scan] at htext
    rw [scan_digits htext hne hrun opening, integer_eq]
    exact ⟨rfl, rfl⟩

end Lexeme

/-! ### The tokens of a text -/

open TokenKind (IsFaithful)

theorem TokenKind.isFaithful_endOfInput : IsFaithful .endOfInput [] [] where
  readFrom := ⟨rfl, rfl⟩
  name := by simp
  number := by
    intro negative digits more htext hne _
    simp [hne] at htext

theorem TokenKind.isFaithful_newline {text rest : List Char} (hfirst : text.head? = some '\n')
    (hrun : IsRun isBlank text rest) : IsFaithful .newline text rest where
  readFrom := ⟨hfirst, hrun⟩
  name := by
    intro c hc hstart
    obtain rfl : '\n' = c := by simpa [hfirst] using hc
    contradiction
  number := by
    intro negative digits more htext hne hdigits
    obtain ⟨text, rfl⟩ := List.head?_eq_some_iff.1 hfirst
    obtain ⟨d, digits, rfl⟩ := List.exists_cons_of_ne_nil hne
    cases negative with
    | false =>
        obtain ⟨rfl, -⟩ := List.cons.inj htext
        exact absurd (hdigits.1 '\n' List.mem_cons_self) (by decide)
    | true =>
        obtain ⟨hminus, -⟩ := List.cons.inj htext
        exact absurd hminus (by decide)

namespace Scan

variable {scan after : Scan} {token : Token}

/-- A step takes characters that its token is faithful to. -/
theorem Step.isFaithful (h : Step scan (token, after)) :
    ∃ gap text, gap ++ (text ++ after.rest) = scan.rest ∧
      token.span = (scan.cursor.advance gap).spanOf text ∧
      token.kind.IsFaithful text after.rest := by
  cases h with
  | finish _ _ => exact ⟨scan.rest, [], by simp, rfl, TokenKind.isFaithful_endOfInput⟩
  | @newline spaces breaks rest hrest _ hbreaks hfirst hnext _ _ =>
      exact ⟨spaces, breaks, hrest.symm, rfl,
        TokenKind.isFaithful_newline hfirst ⟨hbreaks, hnext⟩⟩
  | @lexeme gap c cs hrest _ _ _ =>
      refine ⟨gap, (Lexeme.scan scan.opening c cs).text, ?_, rfl,
        Lexeme.isFaithful_scan scan.opening c cs⟩
      rw [hrest]
      exact congrArg (gap ++ ·) (Lexeme.text_append_rest_scan scan.opening c cs)

end Scan

/-- **Tokens are faithful to the text.**  A token covers characters that it is read from, and as
many of them as it can. -/
theorem Token.isFaithful_of_mem (source : String) :
    ∀ token ∈ ofSource source, ∃ before text after, before ++ (text ++ after) = source.toList ∧
      token.span.start = byteLength before ∧ token.span.stop = byteLength (before ++ text) ∧
      token.kind.IsFaithful text after := by
  refine Scan.forall_mem_tokens ?_ (Scan.standsIn_ofSource source)
  intro scan token after hscan hstep
  refine ⟨?_, (hscan.step hstep).2⟩
  obtain ⟨before, hsource, hcursor⟩ := hscan
  obtain ⟨gap, text, hrest, hspan, hfaithful⟩ := hstep.isFaithful
  refine ⟨before ++ gap, text, after.rest, by simp [← hsource, ← hrest], ?_, ?_, hfaithful⟩
  · simp [hspan, hcursor, Text.Cursor.spanOf, Text.Cursor.origin]
  · simp [hspan, hcursor, Text.Cursor.spanOf, Text.Cursor.origin, Nat.add_assoc]

/-- A number with a leading zero: the digits are those of the text, the value is without the
zero. -/
theorem Token.isFaithful_leadingZero :
    (⟨.number (-7), ⟨2, 5, 1, 3⟩⟩ : Token) ∈ ofSource "a:-07" ∧
      ∃ before text after, before ++ (text ++ after) = "a:-07".toList ∧
        2 = byteLength before ∧ 5 = byteLength (before ++ text) ∧
        IsFaithful (.number (-7)) text after := by
  have htokens : ofSource "a:-07" = [⟨.rule "a", ⟨0, 1, 1, 1⟩⟩,
      ⟨.punctuation .colon, ⟨1, 2, 1, 2⟩⟩, ⟨.number (-7), ⟨2, 5, 1, 3⟩⟩,
      ⟨.endOfInput, ⟨5, 5, 1, 6⟩⟩] := by cbv
  have hmem : (⟨.number (-7), ⟨2, 5, 1, 3⟩⟩ : Token) ∈ ofSource "a:-07" := by simp [htokens]
  exact ⟨hmem, isFaithful_of_mem "a:-07" _ hmem⟩

end GrammarCatalog
