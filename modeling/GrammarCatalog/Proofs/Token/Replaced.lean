/-
**Lexemes in front of another text.**

A lexeme that is a token in its own right takes what it takes by looking at what comes behind, one
character ahead in most cases.  A string looks two ahead, to tell its flag from a name, and marks
look past each other for a name.  So such a lexeme is the same in front of another text, if this
begins with the same character or with a divider, and neither has a flag nor leads to a name past
marks where the first text did not.

Main definitions:

* `GrammarCatalog.Lexeme.withRest` — the same lexeme in front of another text;
* `GrammarCatalog.Lexeme.Replaces` — a text may stand in the place of another one.

Main results:

* `GrammarCatalog.Lexeme.scan_of_isBlank` — no token begins with a blank;
* `GrammarCatalog.Lexeme.replaces_of_spacing` — a text behind a space may stand in any place;
* `GrammarCatalog.Lexeme.scan_replaced` — **a lexeme is the same in front of another text**.
-/

import GrammarCatalog.Proofs.Token.Patterns
import GrammarCatalog.Proofs.Token.Rescanned

set_option relaxedAutoImplicit false
set_option autoImplicit false

namespace GrammarCatalog

namespace Lexeme

open TokenKind (isWritten)

/-! ### Texts in the place of others -/

/-- The same lexeme in front of another text. -/
def withRest (lexeme : Lexeme) (more : List Char) : Lexeme := { lexeme with rest := more }

/-- Past marks a name begins. -/
def leadsToName (cs : List Char) : Bool := (cs.dropWhile isMark).head?.any Name.isStart

/-- A text may stand in the place of another one behind a token. -/
structure Replaces (rest more : List Char) : Prop where
  /-- It begins with the same character, with a divider, or not at all. -/
  head : ∀ d ∈ more.head?, isDivider d = true ∨ rest.head? = some d
  /-- It has no flag in front if the other one has none. -/
  flag : Literal.hasCaseFlag more = true → Literal.hasCaseFlag rest = true
  /-- It leads to no name if the other one does not. -/
  name : leadsToName more = true → leadsToName rest = true

variable {opening : Bool} {c : Char} {cs rest more : List Char} {p : Char → Bool}

/-- The characters that are no dividers are visible ones of ASCII. -/
theorem visible_of_not_isDivider (h : isDivider c = false) : 0x20 < c.toNat ∧ c.toNat < 0x7F := by
  simp only [isDivider, Name.isPart, Name.isStart, isMark, Char.isAlpha, Char.isUpper, Char.isLower,
    Char.isDigit, Bool.not_eq_false', Bool.or_eq_true, beq_iff_eq, Bool.and_eq_true,
    decide_eq_true_eq, ge_iff_le, UInt32.le_iff_toNat_le] at h
  have hcode : c.toNat = c.val.toNat := rfl
  have hzero : '0'.val.toNat = 48 := rfl
  have hnine : '9'.val.toNat = 57 := rfl
  have hupper : 'A'.val.toNat = 65 := rfl
  have hupper' : 'Z'.val.toNat = 90 := rfl
  have hlower : 'a'.val.toNat = 97 := rfl
  have hlower' : 'z'.val.toNat = 122 := rfl
  rcases h with (((((rfl | h | h) | h) | rfl | rfl) | rfl) | rfl)
  all_goals first | decide | omega

/-- Blanks are dividers. -/
theorem isDivider_of_isBlank (h : Text.isBlank c = true) : isDivider c = true := by
  by_contra hnot
  obtain ⟨hlow, hhigh⟩ := visible_of_not_isDivider (Bool.eq_false_iff.2 hnot)
  simp only [Text.isBlank, Text.blankRanges, Text.CodeRanges.covers, List.any_cons, List.any_nil,
    Bool.or_false, Bool.or_eq_true, Bool.and_eq_true, decide_eq_true_eq] at h
  omega

/-- No token begins with a blank. -/
theorem scan_of_isBlank (h : Text.isBlank c = true) (opening : Bool) (cs : List Char) :
    scan opening c cs = ⟨.malformed (.unexpectedCharacter c), [c], cs⟩ := by
  obtain ⟨hpart, hmark, -⟩ := isDivider_iff.1 (isDivider_of_isBlank h)
  have hmarks : marksName (c :: cs) = false := by simp [marksName, hmark]
  have hsign : Punctuation.ofChar? c = none := by
    unfold Punctuation.ofChar?
    split <;> first | rfl | contradiction
  rw [scan, hmarks, Bool.and_false, if_neg (by simp), if_neg (by simp [isDigit_eq_false hpart]),
    if_neg (by simp [isStart_eq_false hpart])]
  unfold scanSymbol
  split
  case h_10 => rw [scanSign, hsign]
  -- no other character that decides the class of a token is blank
  all_goals contradiction

/-- A text behind a space may stand in any place. -/
theorem replaces_of_spacing (h : Text.isSpacing c = true) (rest cs : List Char) :
    Replaces rest (c :: cs) := by
  have hdivider := isDivider_of_isBlank (Text.isBlank_of_isSpacing h)
  obtain ⟨hpart, hmark, -⟩ := isDivider_iff.1 hdivider
  refine ⟨?_, ?_, ?_⟩
  · intro d hd
    obtain rfl : c = d := by simpa using hd
    exact Or.inl hdivider
  · intro hflag
    have hhead := hasCaseFlag_eq_true hflag
    obtain rfl := (List.cons.inj hhead).1
    contradiction
  · intro hname
    simp [leadsToName, hmark, isStart_eq_false hpart] at hname

namespace Replaces

/-- A run of characters that are no dividers ends in front of the other text too. -/
theorem takeWhile_append (h : Replaces (cs.dropWhile p) more)
    (hdivider : ∀ d, isDivider d = true → p d = false) :
    (cs.takeWhile p ++ more).takeWhile p = cs.takeWhile p ∧
      (cs.takeWhile p ++ more).dropWhile p = more := by
  have hstop := (Text.isRun_takeWhile p cs).2
  have hrun : Text.IsRun p (cs.takeWhile p) more := by
    refine ⟨Text.forall_mem_takeWhile cs, fun d hd => ?_⟩
    rcases h.head d hd with hd | hd
    · exact hdivider d hd
    · exact hstop d hd
  exact ⟨hrun.takeWhile_eq, hrun.dropWhile_eq⟩

end Replaces

theorem isPart_of_isDivider : ∀ d, isDivider d = true → Name.isPart d = false :=
  fun _ hd => (isDivider_iff.1 hd).1

theorem isDigit_of_isDivider : ∀ d, isDivider d = true → d.isDigit = false :=
  fun d hd => isDigit_eq_false (isPart_of_isDivider d hd)

/-! ### Scanners -/

theorem scanNumber_replaced {negative : Bool} (h : Replaces (scanNumber negative cs).rest more) :
    scanNumber negative (cs.takeWhile Char.isDigit ++ more) =
      (scanNumber negative cs).withRest more := by
  obtain ⟨htake, hdrop⟩ := Replaces.takeWhile_append h isDigit_of_isDivider
  simp only [scanNumber, htake, hdrop, withRest]

theorem scanName_replaced (h : Replaces (scanName cs).rest more) :
    scanName (cs.takeWhile Name.isPart ++ more) = (scanName cs).withRest more := by
  obtain ⟨htake, hdrop⟩ := Replaces.takeWhile_append h isPart_of_isDivider
  simp only [scanName, htake, hdrop, withRest]

theorem scanDirective_replaced (h : Replaces (scanDirective cs).rest more) :
    scanDirective (cs.takeWhile Name.isPart ++ more) = (scanDirective cs).withRest more := by
  obtain ⟨htake, hdrop⟩ := Replaces.takeWhile_append h isPart_of_isDivider
  simp only [scanDirective, htake, hdrop, withRest]

/-- A string that is closed is the same, with its flag. -/
theorem scanString_replaced (hkind : (scanString cs).kind.isWritten = true)
    (h : Replaces (scanString cs).rest more) :
    scanString ((scanString cs).text.tail ++ more) = (scanString cs).withRest more := by
  have hclosed : (Literal.scanBody '"' cs).closed = true := by
    by_contra hopen
    rw [scanString, if_neg hopen] at hkind
    contradiction
  have hbody := Literal.scanBody_text (by decide) hclosed
  simp only [scanString, hclosed, if_true, Literal.Body.consumed, List.tail_cons] at h ⊢
  generalize (Literal.scanBody '"' cs).text = text at hbody ⊢
  generalize (Literal.scanBody '"' cs).rest = rest at h ⊢
  cases hflag : Literal.hasCaseFlag rest with
  | true =>
      -- behind the flag no name goes on, in either text
      have hmore : Literal.hasCaseFlag ('i' :: more) = true := by
        rw [hflag, if_pos rfl] at h
        have hrest := hasCaseFlag_eq_true hflag
        generalize rest.tail = others at h hrest
        subst hrest
        cases more with
        | nil => rfl
        | cons d more =>
            rcases h.head d rfl with hd | hd
            · simp [Literal.hasCaseFlag, isPart_of_isDivider d hd]
            · cases others with
              | nil => contradiction
              | cons e others =>
                  obtain rfl : e = d := by simpa using hd
                  exact hflag
      simp [hbody, hmore, withRest]
  | false =>
      have hmore : Literal.hasCaseFlag more = false := by
        by_contra hmore
        rw [hflag] at h
        have hrest := h.flag (Bool.not_eq_false _ ▸ hmore)
        rw [if_neg (by simp), hflag] at hrest
        contradiction
      simp [hbody, hmore, withRest]

/-- A regular expression that is closed is the same, with its flags. -/
theorem scanRegexp_replaced (hkind : (scanRegexp cs).kind.isWritten = true)
    (h : Replaces (scanRegexp cs).rest more) :
    scanRegexp ((scanRegexp cs).text.tail ++ more) = (scanRegexp cs).withRest more ∧
      ((scanRegexp cs).text.tail ++ more).head? = cs.head? := by
  have hclosed : (Literal.scanBody '/' cs).closed = true := by
    by_contra hopen
    rw [scanRegexp, if_neg hopen] at hkind
    contradiction
  have hbody := Literal.scanBody_text (by decide) hclosed
  have hhead := Literal.head?_text_append hclosed
  simp only [scanRegexp, hclosed, if_true, Literal.Body.consumed, List.tail_cons] at h ⊢
  obtain ⟨htake, hdrop⟩ := h.takeWhile_append fun d hd =>
    Literal.isRegexpFlag_eq_false (isPart_of_isDivider d hd)
  simp [hbody, hhead, htake, hdrop, withRest]

/-- A rule name with its marks is the same, and its marks still lead to it. -/
theorem scanMarked_replaced (hkind : (scanMarked cs).kind.isWritten = true)
    (h : Replaces (scanMarked cs).rest more) :
    scanMarked ((scanMarked cs).text ++ more) = (scanMarked cs).withRest more ∧
      leadsToName ((scanMarked cs).text ++ more) = true := by
  have hkind' : (markedKind (splitMarks cs).1
      ((splitMarks cs).2.takeWhile Name.isPart)).isWritten = true := hkind
  obtain ⟨d, rest, htext, hd⟩ :=
    Name.exists_isStart_of_isRule (markedKind_of_isWritten hkind').1
  obtain ⟨htake, hdrop⟩ := Replaces.takeWhile_append h isPart_of_isDivider
  have hsplit := splitMarks_append_start cs (rest ++ more) hd
  rw [htext, List.cons_append] at htake hdrop
  simp only [scanMarked, htext, List.append_assoc, List.cons_append, hsplit, htake, hdrop,
    withRest, true_and]
  rw [leadsToName, List.dropWhile_append_of_pos (isMark_of_mem_splitMarks cs),
    List.dropWhile_cons_of_neg (by simp [isMark_eq_false_of_isStart hd])]
  simp [hd]

theorem scanSign_replaced (c : Char) (cs more : List Char) :
    scanSign c ((scanSign c cs).text.tail ++ more) = (scanSign c cs).withRest more := by
  unfold scanSign
  split <;> rfl

theorem scanSymbol_slash (h : cs.head? ≠ some '/') : scanSymbol '/' cs = scanRegexp cs := by
  cases cs with
  | nil => rfl
  | cons d cs => simp_all [scanSymbol]

/-- A sign, a literal or another token that neither a digit nor a name begins is the same. -/
theorem scanSymbol_replaced (hkind : (scanSymbol c cs).kind.isWritten = true)
    (h : Replaces (scanSymbol c cs).rest more) :
    scanSymbol c ((scanSymbol c cs).text.tail ++ more) = (scanSymbol c cs).withRest more := by
  revert hkind h
  fun_cases scanSymbol c cs with
  | case1 | case3 => exact fun _ _ => rfl
  | case2 cs hne =>
      intro _ h
      cases more with
      | nil => rfl
      | cons d more =>
          have hd : d ≠ '.' := by
            rintro rfl
            rcases h.head '.' rfl with hd | hd
            · contradiction
            · obtain ⟨rest, hrest⟩ := List.head?_eq_some_iff.1 hd
              exact hne rest hrest
          simp [scanSymbol, hd, withRest]
  | case4 cs hne hdigit =>
      intro _ h
      cases cs with
      | nil => contradiction
      | cons d cs =>
          have hd : d.isDigit = true := hdigit
          have harrow : d ≠ '>' := by
            rintro rfl
            contradiction
          have hnumber := scanNumber_replaced h
          rw [List.takeWhile_cons_of_pos hd, List.cons_append] at hnumber
          have htail : (scanNumber true (d :: cs)).text.tail = d :: cs.takeWhile Char.isDigit := by
            simp [scanNumber, hd]
          rw [htail, ← hnumber]
          simp [scanSymbol, hd, harrow]
  | case5 | case6 cs | case7 cs =>
      intro hkind
      contradiction
  | case8 cs hslash =>
      intro hkind h
      obtain ⟨hregexp, hhead⟩ := scanRegexp_replaced hkind h
      rw [← hregexp, scanSymbol_slash]
      rw [hhead]
      intro hcs
      obtain ⟨rest, hrest⟩ := List.head?_eq_some_iff.1 hcs
      exact hslash rest hrest
  | case9 cs => exact scanString_replaced
  | case10 cs => exact fun _ => scanDirective_replaced
  | case11 =>
      intro _ _
      rw [← scanSign_replaced, scanSymbol] <;> simp_all

/-- Where marks stand that belong to no name, what they are does not depend on what comes behind
them. -/
theorem scanSymbol_of_isMark (h : isMark c = true) (cs : List Char) :
    scanSymbol c cs = scanSign c cs := by
  simp only [isMark, Bool.or_eq_true, beq_iff_eq] at h
  rcases h with rfl | rfl <;> rfl

/-- A lexeme takes the first character. -/
theorem text_scan_eq_cons (opening : Bool) (c : Char) (cs : List Char) :
    (scan opening c cs).text = c :: (scan opening c cs).text.tail := by
  have happend := text_append_rest_scan opening c cs
  cases htext : (scan opening c cs).text with
  | nil => exact absurd htext (text_scan_ne_nil opening c cs)
  | cons d text =>
      rw [htext] at happend
      rw [(List.cons.inj happend).1]
      rfl

theorem marksName_cons (c : Char) (cs : List Char) :
    marksName (c :: cs) = (isMark c && leadsToName cs) := by
  cases hc : isMark c <;> simp [marksName, leadsToName, hc]

/-- **A lexeme is the same in front of another text** that may stand in the place of its rest, if it
is a token in its own right. -/
theorem scan_replaced (hkind : (scan opening c cs).kind.isWritten = true)
    (h : Replaces (scan opening c cs).rest more) :
    scan opening c ((scan opening c cs).text.tail ++ more) =
      (scan opening c cs).withRest more := by
  have htext : c :: ((scan opening c cs).text.tail ++ more) = (scan opening c cs).text ++ more := by
    rw [← List.cons_append, ← text_scan_eq_cons]
  by_cases hmarks : (opening && marksName (c :: cs)) = true
  · have hscan : scan opening c cs = scanMarked (c :: cs) := by rw [scan, if_pos hmarks]
    rw [hscan] at hkind h htext ⊢
    obtain ⟨hmarked, hname⟩ := scanMarked_replaced hkind h
    rw [← htext] at hmarked hname
    rw [marksName_cons, Bool.and_eq_true, Bool.and_eq_true] at hmarks
    obtain ⟨hopening, hc, -⟩ := hmarks
    have hmarks : marksName (c :: ((scanMarked (c :: cs)).text.tail ++ more)) = true := by
      rw [leadsToName, List.dropWhile_cons_of_pos hc] at hname
      rw [marksName_cons, hc, Bool.true_and]
      exact hname
    rw [scan, hopening, hmarks, Bool.and_self, if_pos rfl, hmarked]
  · by_cases hdigit : c.isDigit = true
    · rw [scan_of_isDigit hdigit] at h htext ⊢
      rw [scan_of_isDigit hdigit, htext, ← scanNumber_replaced h]
      rfl
    · by_cases hstart : Name.isStart c = true
      · rw [scan_of_isStart hstart] at h htext ⊢
        rw [scan_of_isStart hstart, htext, ← scanName_replaced h]
        rfl
      · have hscan : scan opening c cs = scanSymbol c cs := by
          rw [scan, if_neg hmarks, if_neg hdigit, if_neg hstart]
        rw [hscan] at hkind h ⊢
        rw [← scanSymbol_replaced hkind h, scan, if_neg, if_neg hdigit, if_neg hstart]
        -- marks that lead to no name still lead to none
        intro hnext
        rw [marksName_cons, Bool.and_eq_true, Bool.and_eq_true] at hnext
        obtain ⟨hopening, hc, hname⟩ := hnext
        have hsign := scanSymbol_of_isMark hc cs
        have hrest : (scanSymbol c cs).rest = cs ∧ (scanSymbol c cs).text.tail = [] := by
          rw [hsign, scanSign]
          split <;> exact ⟨rfl, rfl⟩
        rw [hrest.2, List.nil_append] at hname
        rw [hrest.1] at h
        exact hmarks (by rw [hopening, marksName_cons, hc, h.name hname]; rfl)

end Lexeme

end GrammarCatalog
