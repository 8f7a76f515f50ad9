/-
**Texts without their comments.**

A comment runs to the end of its line.  So leaving comments out changes the text at the ends of
lines only, where it puts a line feed or the end of the text in the place of a comment.  Such a
place ends every lexeme that a comment can stand behind, and the scanner looks past comments where
it looks for a bar; so the other tokens stay, on their lines.

Main definitions:

* `GrammarCatalog.Text.uncovered` — the characters of a text that no span covers;
* `GrammarCatalog.Text.uncommented` — a text without its comments;
* `GrammarCatalog.Text.IsCutOff` — a text is another one, or leaves it at the end of a line;
* `GrammarCatalog.Scan.bare` — the text that is left of a scan, without its comments;
* `GrammarCatalog.Token.SameLine` — two tokens agree in kind and line.

Main results:

* `GrammarCatalog.Scan.bare_of_step` — what a step leaves of the text that it takes;
* `GrammarCatalog.Lexeme.scan_cutOff` — a lexeme is the same in front of a comment and without it;
* `GrammarCatalog.Token.forall₂_uncommented` — **the tokens that are no comments stay**.
-/

import GrammarCatalog.Proofs.Token.Concatenation
import GrammarCatalog.Proofs.Token.Coverage
import GrammarCatalog.Proofs.Token.OpenLexemes
import GrammarCatalog.Proofs.Token.Patterns

set_option relaxedAutoImplicit false
set_option autoImplicit false

namespace GrammarCatalog

/-! ### Leaving out what is covered -/

namespace Text

/-- The characters of a text that begins at an offset, but for those that one of the spans
covers. -/
def uncovered (spans : List Span) : Nat → List Char → List Char
  | _, [] => []
  | offset, c :: cs =>
      if spans.any fun span => span.start ≤ offset && offset < span.stop then
        uncovered spans (offset + c.utf8Size) cs
      else c :: uncovered spans (offset + c.utf8Size) cs

variable {spans : List Span} {span : Span} {offset : Nat} {cs : List Char}

theorem uncovered_append (spans : List Span) (offset : Nat) (cs more : List Char) :
    uncovered spans offset (cs ++ more) =
      uncovered spans offset cs ++ uncovered spans (offset + byteLength cs) more := by
  induction cs generalizing offset with
  | nil => rfl
  | cons c cs ih =>
      simp only [List.cons_append, uncovered, ih, byteLength_cons, Nat.add_assoc]
      split <;> rfl

/-- A text in front of all spans is left. -/
theorem uncovered_of_le_start (h : ∀ span ∈ spans, offset + byteLength cs ≤ span.start) :
    uncovered spans offset cs = cs := by
  induction cs generalizing offset with
  | nil => rfl
  | cons c cs ih =>
      have hpos := c.utf8Size_pos
      simp only [byteLength_cons] at h
      rw [uncovered, if_neg, ih]
      · intro span hspan
        have := h span hspan
        omega
      · simp only [List.any_eq_true, Bool.and_eq_true, decide_eq_true_eq, not_exists, not_and]
        intro span hspan hstart
        have := h span hspan
        omega

/-- Nothing is left of a text in a span. -/
theorem uncovered_of_covered (hspan : span ∈ spans) (hstart : span.start ≤ offset)
    (hstop : offset + byteLength cs ≤ span.stop) : uncovered spans offset cs = [] := by
  induction cs generalizing offset with
  | nil => rfl
  | cons c cs ih =>
      have hpos := c.utf8Size_pos
      simp only [byteLength_cons] at hstop
      rw [uncovered, if_pos, ih]
      · omega
      · omega
      · simp only [List.any_eq_true, Bool.and_eq_true, decide_eq_true_eq]
        exact ⟨span, hspan, hstart, by omega⟩

/-- Behind a span it covers nothing. -/
theorem uncovered_cons_of_stop_le (h : span.stop ≤ offset) :
    uncovered (span :: spans) offset cs = uncovered spans offset cs := by
  induction cs generalizing offset with
  | nil => rfl
  | cons c cs ih =>
      have hnot : decide (offset < span.stop) = false := by simpa using h
      rw [uncovered, uncovered, ih (by omega), List.any_cons, hnot, Bool.and_false, Bool.false_or]

end Text

/-- The spans of the tokens that are comments. -/
def Token.commentSpans (tokens : List Token) : List Span :=
  (tokens.filter fun token => token.kind.isTrivia).map Token.span

/-- A text without the characters of its comments.  Line feeds are not part of comments. -/
def Text.uncommented (source : String) : String :=
  String.ofList (Text.uncovered (Token.commentSpans (Token.ofSource source)) 0 source.toList)

namespace Scan

open Text (byteLength uncovered)

variable {scan after : Scan} {token : Token}

/-- The text that is left of a scan, without its comments. -/
def bare (scan : Scan) : List Char :=
  uncovered (Token.commentSpans scan.tokens) scan.cursor.offset scan.rest

theorem bare_of_end (h : Step scan (token, after)) (hend : token.kind = .endOfInput) :
    scan.bare = scan.rest := by
  have hspans : Token.commentSpans scan.tokens = [] := by
    rw [tokens_of_step h, if_pos hend]
    simp [Token.commentSpans, hend, TokenKind.isTrivia]
  rw [bare, hspans]
  exact Text.uncovered_of_le_start (by simp)

/-- **What a step leaves** of the text that it takes: the gap, and the text of the token if that is
no comment. -/
theorem bare_of_step (h : Step scan (token, after)) (hkind : token.kind ≠ .endOfInput)
    {gap text : List Char} (hrest : scan.rest = gap ++ (text ++ after.rest))
    (hspan : token.span = (scan.cursor.advance gap).spanOf text)
    (hcursor : after.cursor.offset = token.span.stop) :
    scan.bare = gap ++ ((if token.kind.isTrivia then [] else text) ++ after.bare) := by
  have hstart : token.span.start = scan.cursor.offset + byteLength gap := by
    simp [hspan, Text.Cursor.spanOf]
  have hstop : token.span.stop = token.span.start + byteLength text := by
    simp [hspan, Text.Cursor.spanOf]
  have hlater : ∀ span ∈ Token.commentSpans after.tokens, token.span.stop ≤ span.start := by
    intro span hmem
    obtain ⟨later, hlater, rfl⟩ := List.mem_map.1 hmem
    rw [← hcursor]
    exact (tiles_tokens after).offset_le later (List.mem_filter.1 hlater).1
  have htokens : scan.tokens = token :: after.tokens := by rw [tokens_of_step h, if_neg hkind]
  have hoffset : scan.cursor.offset + byteLength gap + byteLength text = after.cursor.offset := by
    omega
  simp only [bare, htokens, hrest, Text.uncovered_append, hoffset]
  cases htrivia : token.kind.isTrivia with
  | true =>
      have hspans : Token.commentSpans (token :: after.tokens) =
          token.span :: Token.commentSpans after.tokens := by
        simp [Token.commentSpans, htrivia]
      rw [hspans, Text.uncovered_of_le_start, Text.uncovered_of_covered List.mem_cons_self,
        Text.uncovered_cons_of_stop_le, if_pos rfl]
      · omega
      · omega
      · omega
      · refine List.forall_mem_cons.2 ⟨by omega, fun span hmem => ?_⟩
        have := hlater span hmem
        omega
  | false =>
      have hspans : Token.commentSpans (token :: after.tokens) =
          Token.commentSpans after.tokens := by
        simp [Token.commentSpans, htrivia]
      have hfront {cs : List Char} {offset : Nat} (hle : offset + byteLength cs ≤ token.span.stop) :
          uncovered (Token.commentSpans after.tokens) offset cs = cs :=
        Text.uncovered_of_le_start fun span hmem => Nat.le_trans hle (hlater span hmem)
      rw [hspans, hfront, hfront, if_neg (by simp)]
      · omega
      · omega

end Scan

/-! ### Ends of lines -/

/-- A text is another one, or leaves it where a sign that begins a comment stands, and there its
line ends. -/
def Text.IsCutOff (cs short : List Char) : Prop :=
  short = cs ∨ ∃ front d back more, cs = front ++ d :: back ∧ short = front ++ more ∧
    (d = '#' ∨ d = '/') ∧ ∀ c ∈ more.head?, c = '\n'

namespace Text.IsCutOff

variable {cs short : List Char}

/-- The same text in front changes nothing. -/
theorem append (h : IsCutOff cs short) (front : List Char) :
    IsCutOff (front ++ cs) (front ++ short) := by
  rcases h with rfl | ⟨front', d, back, more, rfl, rfl, hd, hmore⟩
  · exact Or.inl rfl
  · exact Or.inr ⟨front ++ front', d, back, more, (List.append_assoc _ _ _).symm,
      (List.append_assoc _ _ _).symm, hd, hmore⟩

/-- Where a line has ended, it still has. -/
theorem head?_eq (h : IsCutOff cs short) (hcs : ∀ c ∈ cs.head?, c = '\n') :
    ∀ c ∈ short.head?, c = '\n' := by
  rcases h with rfl | ⟨front, d, back, more, rfl, rfl, hd, hmore⟩
  · exact hcs
  · cases front with
    | nil => exact hmore
    | cons c front => exact hcs

end Text.IsCutOff

namespace Lexeme

open Text (IsCutOff)

variable {opening : Bool} {c : Char}

/-- **A lexeme is the same** in front of a comment and without it. -/
theorem scan_cutOff {lexeme : Lexeme} {text short : List Char}
    (h : IsCutOff lexeme.rest short) (hscan : scan opening c (text ++ lexeme.rest) = lexeme) :
    scan opening c (text ++ short) = { lexeme with rest := short } := by
  obtain ⟨kind, taken, rest⟩ := lexeme
  dsimp only at h hscan ⊢
  rcases h with rfl | ⟨front, d, back, more, rfl, rfl, hd, hmore⟩
  · exact hscan
  rw [← List.append_assoc] at hscan ⊢
  have hdivider : isDivider d = true ∧ d ≠ '\n' := by
    rcases hd with rfl | rfl <;> decide
  -- what runs on would have taken the sign
  have hruns : ¬(scan opening c (text ++ front)).RunsOn := by
    intro hruns
    have hle := hruns.length_rest_le hdivider.2 back
    rw [hscan] at hle
    simp only [List.length_append, List.length_cons] at hle
    omega
  rw [scan_append ⟨hdivider.1, Or.inr hruns⟩] at hscan
  have hfront : scan opening c (text ++ front) = ⟨kind, taken, front⟩ := by
    generalize scan opening c (text ++ front) = lexeme at hscan
    obtain ⟨rfl, rfl, hrest⟩ := Lexeme.mk.inj hscan
    rw [← List.append_cancel_right hrest]
  cases more with
  | nil => rw [List.append_nil, List.append_nil, hfront]
  | cons e more =>
      obtain rfl := hmore e rfl
      rw [scan_append_newline, hfront]
      rfl

end Lexeme

/-! ### Scans -/

/-- Two tokens agree in kind and line. -/
structure Token.SameLine (token token' : Token) : Prop where
  /-- They are the same. -/
  kind : token'.kind = token.kind
  /-- They are on the same line. -/
  line : token.span.line = token'.span.line

namespace Scan

open Text (IsCutOff isBlank isSpacing)

variable {scan after : Scan} {token : Token}

/-- The scan behind a lexeme in front of which a gap stands. -/
def behind (scan : Scan) (gap : List Char) (c : Char) (cs : List Char) : Scan :=
  ((scan.past gap (c :: cs)).emit (Lexeme.scan scan.opening c cs).kind
    (Lexeme.scan scan.opening c cs).text (Lexeme.scan scan.opening c cs).rest).2

variable {spaces breaks gap rest : List Char} {c : Char} {cs : List Char}

theorem bare_of_newline (hrest : scan.rest = spaces ++ (breaks ++ rest))
    (hspaces : ∀ c ∈ spaces, isSpacing c = true) (hbreaks : ∀ c ∈ breaks, isBlank c = true)
    (hfirst : breaks.head? = some '\n') (hnext : ∀ c ∈ rest.head?, isBlank c = false)
    (hafter : scan.afterNewline = false) (hpipe : leadsToPipe false rest = false) :
    scan.bare = spaces ++ (breaks ++
      ((scan.past spaces (breaks ++ rest)).emit .newline breaks rest).2.bare) :=
  bare_of_step (.newline hrest hspaces hbreaks hfirst hnext hafter hpipe) (by simp) hrest rfl rfl

theorem bare_of_lexeme (hrest : scan.rest = gap ++ c :: cs) (hgap : ∀ d ∈ gap, isBlank d = true)
    (hc : isBlank c = false)
    (hline : '\n' ∈ gap → scan.afterNewline = true ∨ leadsToPipe false (c :: cs) = true) :
    scan.bare = gap ++ ((if (Lexeme.scan scan.opening c cs).kind.isTrivia then []
      else (Lexeme.scan scan.opening c cs).text) ++ (scan.behind gap c cs).bare) := by
  refine bare_of_step (.lexeme hrest hgap hc hline) (Lexeme.kind_scan_ne scan.opening c cs).2 ?_
    rfl rfl
  rw [hrest]
  exact congrArg (gap ++ ·) (Lexeme.text_append_rest_scan scan.opening c cs).symm

/-- Behind a comment the scan is at the end of its line. -/
theorem behind_of_beginsComment (scan : Scan) (gap : List Char)
    (hcomment : Lexeme.BeginsComment c cs) : scan.behind gap c cs =
      scan.past (gap ++ Text.firstLine (c :: cs)) ((c :: cs).dropWhile (· != '\n')) := by
  rw [behind, Lexeme.scan_of_beginsComment scan.opening hcomment, ← past_past]
  rfl

theorem bare_of_comment (hrest : scan.rest = gap ++ c :: cs) (hgap : ∀ d ∈ gap, isBlank d = true)
    (hc : isBlank c = false)
    (hline : '\n' ∈ gap → scan.afterNewline = true ∨ leadsToPipe false (c :: cs) = true)
    (hcomment : Lexeme.BeginsComment c cs) : scan.bare = gap ++ (scan.behind gap c cs).bare := by
  rw [bare_of_lexeme hrest hgap hc hline, Lexeme.scan_of_beginsComment scan.opening hcomment]
  rfl

/-- Without its comments, the text that is left of a scan is cut off at a comment, if there is
one. -/
theorem isCutOff_bare (scan : Scan) : IsCutOff scan.rest scan.bare := by
  refine tokens_induction (motive := fun scan _ => IsCutOff scan.rest scan.bare) ?_ ?_ scan
  · intro scan token after hstep hend
    exact Or.inl (bare_of_end hstep hend)
  · intro scan token after hstep hkind ih
    cases hstep with
    | finish _ _ => exact absurd rfl hkind
    | @newline spaces breaks rest hrest hspaces hbreaks hfirst hnext hafter hpipe =>
        rw [bare_of_newline hrest hspaces hbreaks hfirst hnext hafter hpipe, hrest]
        exact (ih.append breaks).append spaces
    | @lexeme gap c cs hrest hgap hc hline =>
        change IsCutOff _ (scan.behind gap c cs).bare at ih
        by_cases hcomment : Lexeme.BeginsComment c cs
        · rw [bare_of_comment hrest hgap hc hline hcomment, hrest]
          have hbegins := hcomment.imp_right And.left
          refine IsCutOff.append (Or.inr ⟨[], c, cs, _, rfl, rfl, hbegins, ?_⟩) gap
          refine ih.head?_eq fun d hd => ?_
          rw [Lexeme.scan_of_beginsComment scan.opening hcomment] at hd
          change d ∈ ((c :: cs).dropWhile (· != '\n')).head? at hd
          simpa using (Text.isRun_takeWhile (· != '\n') (c :: cs)).2 d hd
        · rw [bare_of_lexeme hrest hgap hc hline,
            (Lexeme.breaks_scan scan.opening hcomment).isTrivia, hrest,
            ← Lexeme.text_append_rest_scan scan.opening c cs]
          exact (ih.append _).append gap

/-- Without the comments behind it, a lexeme that is no comment is the same, and so is what comes
next there. -/
theorem bare_of_word (hrest : scan.rest = gap ++ c :: cs) (hgap : ∀ d ∈ gap, isBlank d = true)
    (hc : isBlank c = false)
    (hline : '\n' ∈ gap → scan.afterNewline = true ∨ leadsToPipe false (c :: cs) = true)
    (hcomment : ¬Lexeme.BeginsComment c cs) : ∃ cs', scan.bare = gap ++ c :: cs' ∧
      Lexeme.scan scan.opening c cs' =
        { Lexeme.scan scan.opening c cs with rest := (scan.behind gap c cs).bare } ∧
      leadsToPipe false (c :: cs') = leadsToPipe false (c :: cs) := by
  have hword := (Lexeme.breaks_scan scan.opening hcomment).isTrivia
  have happend := Lexeme.text_append_rest_scan scan.opening c cs
  have hbare : IsCutOff (Lexeme.scan scan.opening c cs).rest (scan.behind gap c cs).bare :=
    isCutOff_bare (scan.behind gap c cs)
  rw [bare_of_lexeme hrest hgap hc hline, hword]
  cases htext : (Lexeme.scan scan.opening c cs).text with
  | nil => exact absurd htext (Lexeme.text_scan_ne_nil scan.opening c cs)
  | cons d text =>
      rw [htext] at happend
      obtain ⟨rfl, hcs⟩ := List.cons.inj happend
      have hscan := Lexeme.scan_cutOff hbare (congrArg (Lexeme.scan scan.opening d) hcs)
      refine ⟨_, rfl, hscan, ?_⟩
      have hnot : ¬Lexeme.BeginsComment d (text ++ (scan.behind gap d cs).bare) := by
        intro hbegins
        have htrivia := congrArg TokenKind.isTrivia (congrArg Lexeme.kind hscan)
        rw [Lexeme.scan_of_beginsComment scan.opening hbegins, hword] at htrivia
        contradiction
      rw [Bool.eq_iff_iff]
      exact (Lexeme.leadsToPipe_of_not_beginsComment hnot hc).trans
        (Lexeme.leadsToPipe_of_not_beginsComment hcomment hc).symm

/-- What comes next is the same without the comments. -/
theorem leadsToPipe_bare (scan : Scan) :
    leadsToPipe false scan.bare = leadsToPipe false scan.rest := by
  refine tokens_induction
    (motive := fun scan _ => leadsToPipe false scan.bare = leadsToPipe false scan.rest) ?_ ?_ scan
  · intro scan token after hstep hend
    rw [bare_of_end hstep hend]
  · intro scan token after hstep hkind ih
    cases hstep with
    | finish _ _ => exact absurd rfl hkind
    | newline hrest hspaces hbreaks hfirst hnext hafter hpipe =>
        rw [bare_of_newline hrest hspaces hbreaks hfirst hnext hafter hpipe, hrest,
          ← List.append_assoc, ← List.append_assoc,
          leadsToPipe_append (isBlank_of_mem_append hspaces hbreaks),
          leadsToPipe_append (isBlank_of_mem_append hspaces hbreaks)]
        exact ih
    | @lexeme gap c cs hrest hgap hc hline =>
        change leadsToPipe false (scan.behind gap c cs).bare = _ at ih
        by_cases hcomment : Lexeme.BeginsComment c cs
        · rw [bare_of_comment hrest hgap hc hline hcomment, hrest, leadsToPipe_append hgap,
            leadsToPipe_append hgap, ih, Lexeme.leadsToPipe_of_beginsComment hcomment,
            Lexeme.scan_of_beginsComment scan.opening hcomment]
          rfl
        · obtain ⟨cs', hbare, -, hnext⟩ := bare_of_word hrest hgap hc hline hcomment
          rw [hbare, hrest, leadsToPipe_append hgap, leadsToPipe_append hgap, hnext]

/-! ### Runs -/

/-- The scan of the text that is left without its comments, at another place. -/
def bared (scan : Scan) (place : Text.Cursor) : Scan :=
  { scan with rest := scan.bare, cursor := place }

/-- The tokens without the comments begin with one that agrees, and go on behind it at a place on
the same line. -/
def BeginsAlike (scan : Scan) (place : Text.Cursor) (next : Token × Scan) : Prop :=
  ∃ token place', (scan.bared place).significant = token :: (next.2.bared place').significant ∧
    next.1.SameLine token ∧ next.2.cursor.line = place'.line

variable {place : Text.Cursor}

/-- Passing the same characters keeps two places on the same line. -/
theorem line_advance_eq {place place' : Text.Cursor} (h : place.line = place'.line)
    (cs : List Char) : (place.advance cs).line = (place'.advance cs).line := by
  rw [Text.Cursor.line_advance, Text.Cursor.line_advance, h]

/-- A line break takes the blanks behind it, and those behind the comments there. -/
theorem beginsAlike_newline (h : scan.cursor.line = place.line)
    (hrest : scan.rest = spaces ++ (breaks ++ rest)) (hspaces : ∀ c ∈ spaces, isSpacing c = true)
    (hbreaks : ∀ c ∈ breaks, isBlank c = true) (hfirst : breaks.head? = some '\n')
    (hnext : ∀ c ∈ rest.head?, isBlank c = false) (hafter : scan.afterNewline = false)
    (hpipe : leadsToPipe false rest = false) :
    scan.BeginsAlike place ((scan.past spaces (breaks ++ rest)).emit .newline breaks rest) := by
  have hbare := bare_of_newline hrest hspaces hbreaks hfirst hnext hafter hpipe
  generalize hstep : (scan.past spaces (breaks ++ rest)).emit .newline breaks rest = next at hbare
  have hpipe' : leadsToPipe false next.2.bare = false := by
    rw [leadsToPipe_bare, ← hstep]
    exact hpipe
  let place' := (place.advance spaces).advance breaks
  obtain ⟨gap, rest', hgaprest, hgap, hvisible, -, -⟩ := exists_skip isBlank (next.2.bared place')
  change next.2.bare = gap ++ rest' at hgaprest
  rw [hgaprest, leadsToPipe_append hgap] at hpipe'
  have hrest' : (scan.bared place).rest = spaces ++ ((breaks ++ gap) ++ rest') := by
    change scan.bare = _
    rw [hbare, hgaprest, List.append_assoc]
  have hblank : ∀ c ∈ breaks ++ gap, isBlank c = true :=
    fun c hc => (List.mem_append.1 hc).elim (hbreaks c) (hgap c)
  have hhead : (breaks ++ gap).head? = some '\n' := by
    rw [List.head?_append, hfirst]
    rfl
  have hbared := Step.newline hrest' hspaces hblank hhead hvisible hafter hpipe'
  have hsignificant := significant_of_step hbared (by simp [emit]) rfl
  have hpast : (((scan.bared place).past spaces ((breaks ++ gap) ++ rest')).emit .newline
      (breaks ++ gap) rest').2 = (next.2.bared place').past gap rest' := by
    subst hstep
    simp [emit, past, bared, place', opensAfter, newlineAfter, Text.Cursor.advance_append]
  have hended : (next.2.bared place').afterNewline = true := by
    subst hstep
    rfl
  rw [hpast, significant_past hgaprest hgap fun _ => Or.inl hended] at hsignificant
  subst hstep
  exact ⟨_, place', hsignificant, ⟨rfl, line_advance_eq h spaces⟩,
    line_advance_eq (line_advance_eq h spaces) breaks⟩

/-- A lexeme that is no comment is the same. -/
theorem beginsAlike_word (h : scan.cursor.line = place.line) (hrest : scan.rest = gap ++ c :: cs)
    (hgap : ∀ d ∈ gap, isBlank d = true) (hc : isBlank c = false)
    (hline : '\n' ∈ gap → scan.afterNewline = true ∨ leadsToPipe false (c :: cs) = true)
    (hcomment : ¬Lexeme.BeginsComment c cs) :
    scan.BeginsAlike place ((scan.past gap (c :: cs)).emit (Lexeme.scan scan.opening c cs).kind
      (Lexeme.scan scan.opening c cs).text (Lexeme.scan scan.opening c cs).rest) := by
  obtain ⟨cs', hbare, hscan, hnext⟩ := bare_of_word hrest hgap hc hline hcomment
  rw [← hnext] at hline
  have hstep : Step (scan.bared place) _ := .lexeme hbare hgap hc hline
  have hopening : (scan.bared place).opening = scan.opening := rfl
  rw [hopening, hscan] at hstep
  have hsignificant := significant_of_step hstep (Lexeme.kind_scan_ne scan.opening c cs).2
    (Lexeme.breaks_scan scan.opening hcomment).isTrivia
  exact ⟨_, _, hsignificant, ⟨rfl, line_advance_eq h gap⟩,
    line_advance_eq (line_advance_eq h gap) _⟩

/-- Where a comment stands, the tokens without the comments go on. -/
theorem significant_bared_of_comment (hrest : scan.rest = gap ++ c :: cs)
    (hgap : ∀ d ∈ gap, isBlank d = true) (hc : isBlank c = false)
    (hline : '\n' ∈ gap → scan.afterNewline = true ∨ leadsToPipe false (c :: cs) = true)
    (hcomment : Lexeme.BeginsComment c cs) : (scan.bared place).significant =
      ((scan.behind gap c cs).bared (place.advance gap)).significant := by
  have hbare := bare_of_comment hrest hgap hc hline hcomment
  have hpast : (scan.behind gap c cs).bared (place.advance gap) =
      (scan.bared place).past gap (scan.behind gap c cs).bare := by
    simp [behind_of_beginsComment scan gap hcomment, bared, past]
  rw [hpast]
  refine (significant_past hbare hgap fun hmem => ?_).symm
  refine (hline hmem).imp_right fun hpipe => ?_
  rw [leadsToPipe_bare, behind_of_beginsComment scan gap hcomment]
  rwa [Lexeme.leadsToPipe_of_beginsComment hcomment] at hpipe

/-- A comment is on one line. -/
theorem line_behind_of_beginsComment (h : scan.cursor.line = place.line)
    (hcomment : Lexeme.BeginsComment c cs) :
    (scan.behind gap c cs).cursor.line = (place.advance gap).line := by
  have hline : (Text.firstLine (c :: cs)).count '\n' = 0 :=
    List.count_eq_zero_of_not_mem (Text.newline_notMem_firstLine _)
  rw [behind_of_beginsComment scan gap hcomment, past_cursor, Text.Cursor.advance_append,
    Text.Cursor.line_advance, hline]
  exact line_advance_eq h gap

/-- **The tokens that are no comments stay** where the comments are left out. -/
theorem forall₂_bared (scan : Scan) (place : Text.Cursor) (h : scan.cursor.line = place.line) :
    List.Forall₂ Token.SameLine scan.significant (scan.bared place).significant := by
  refine tokens_induction (motive := fun scan _ => ∀ place, scan.cursor.line = place.line →
    List.Forall₂ Token.SameLine scan.significant (scan.bared place).significant) ?_ ?_ scan place h
  · intro scan token after hstep hend place h
    have hbare : (scan.bared place).rest = scan.rest := bare_of_end hstep hend
    obtain ⟨hgap, hline, hspan⟩ := hstep.isBlank_of_end hend
    rw [← hbare] at hgap hline
    rw [significant_of_end hstep hend, significant_of_end (.finish hgap hline) rfl]
    refine .cons ⟨hend.symm, ?_⟩ .nil
    rw [hspan, hbare]
    exact line_advance_eq h scan.rest
  · intro scan token after hstep hkind ih place h
    have hcons {next : Token × Scan} (hnext : next = (token, after))
        (hsignificant : scan.significant = token :: after.significant)
        (halike : scan.BeginsAlike place next) :
        List.Forall₂ Token.SameLine scan.significant (scan.bared place).significant := by
      subst hnext
      obtain ⟨token', place', hbared, htoken, hplace⟩ := halike
      rw [hsignificant, hbared]
      exact .cons htoken (ih place' hplace)
    cases hnext : hstep with
    | finish _ _ => exact absurd rfl hkind
    | newline hrest hspaces hbreaks hfirst hvisible hafter hpipe =>
        exact hcons rfl (significant_of_step hstep hkind rfl)
          (beginsAlike_newline h hrest hspaces hbreaks hfirst hvisible hafter hpipe)
    | @lexeme gap c cs hrest hgap hc hline =>
        by_cases hcomment : Lexeme.BeginsComment c cs
        · have htrivia : (Lexeme.scan scan.opening c cs).kind.isTrivia = true := by
            rw [Lexeme.scan_of_beginsComment scan.opening hcomment]
            rfl
          rw [significant_bared_of_comment hrest hgap hc hline hcomment,
            significant_of_comment hstep htrivia]
          exact ih _ (line_behind_of_beginsComment h hcomment)
        · exact hcons rfl (significant_of_step hstep hkind
            (Lexeme.breaks_scan scan.opening hcomment).isTrivia)
            (beginsAlike_word h hrest hgap hc hline hcomment)

end Scan

/-- **The tokens of a text that are no comments stay** where its comments are left out, and so do
their lines. -/
theorem Token.forall₂_uncommented (source : String) :
    List.Forall₂ SameLine (significant source) (significant (Text.uncommented source)) := by
  have hbared : (Scan.ofSource source).bared Text.Cursor.origin =
      Scan.ofSource (Text.uncommented source) := by
    rw [Scan.bared, Scan.ofSource, Scan.ofSource, Text.uncommented, String.toList_ofList]
    rfl
  have htokens := (Scan.ofSource source).forall₂_bared Text.Cursor.origin rfl
  rwa [hbared] at htokens

end GrammarCatalog
