/-
**Steps of a scan.**

A step passes blanks and comes to the end of the text, to a line break that ends a statement, or to
a lexeme.  What a step can do is said once, together with the conditions under which it does it;
what holds of all tokens of a text is proved by induction on steps, without a look at the scanner.

Main definitions:

* `GrammarCatalog.Scan.Step` — **steps**: what was passed, what was taken, and why;
* `GrammarCatalog.Token.StandsIn` — a token covers a part of a text, at the place where it is.

Main results:

* `GrammarCatalog.Scan.step_next`, `GrammarCatalog.Scan.Step.unique` — the scanner goes on by steps,
  and there is one step from each scan;
* `GrammarCatalog.Scan.tokens_induction` — induction along the tokens of a text;
* `GrammarCatalog.Token.standsIn_of_mem` — every token of a text stands in it.
-/

import GrammarCatalog.Token.Stream

set_option relaxedAutoImplicit false
set_option autoImplicit false

namespace GrammarCatalog

/-- The span of some characters behind a place. -/
def Text.Cursor.spanOf (cursor : Text.Cursor) (text : List Char) : Span :=
  ⟨cursor.offset, (cursor.advance text).offset, cursor.line, cursor.column⟩

namespace Scan

open Text (isBlank isSpacing)

/-- The scan past a gap, in front of what is left. -/
def past (scan : Scan) (gap rest : List Char) : Scan :=
  { scan with rest := rest, cursor := scan.cursor.advance gap }

@[simp] theorem past_rest (scan : Scan) (gap rest : List Char) :
    (scan.past gap rest).rest = rest := rfl

@[simp] theorem past_cursor (scan : Scan) (gap rest : List Char) :
    (scan.past gap rest).cursor = scan.cursor.advance gap := rfl

@[simp] theorem past_afterNewline (scan : Scan) (gap rest : List Char) :
    (scan.past gap rest).afterNewline = scan.afterNewline := rfl

/-- **Steps** of a scan, to a token and the scan behind it. -/
inductive Step (scan : Scan) : Token × Scan → Prop
  /-- Only blanks are left. -/
  | finish (hgap : ∀ c ∈ scan.rest, isBlank c = true)
      (hline : '\n' ∈ scan.rest → scan.afterNewline = true) :
      Step scan (⟨.endOfInput, (scan.cursor.advance scan.rest).spanOf []⟩, scan.past scan.rest [])
  /-- Behind spaces, line breaks end a statement. -/
  | newline {spaces breaks rest : List Char} (hrest : scan.rest = spaces ++ (breaks ++ rest))
      (hspaces : ∀ c ∈ spaces, isSpacing c = true) (hbreaks : ∀ c ∈ breaks, isBlank c = true)
      (hfirst : breaks.head? = some '\n') (hnext : ∀ c ∈ rest.head?, isBlank c = false)
      (hafter : scan.afterNewline = false) (hpipe : leadsToPipe false rest = false) :
      Step scan ((scan.past spaces (breaks ++ rest)).emit .newline breaks rest)
  /-- Behind blanks stands a lexeme. -/
  | lexeme {gap : List Char} {c : Char} {cs : List Char} (hrest : scan.rest = gap ++ c :: cs)
      (hgap : ∀ d ∈ gap, isBlank d = true) (hc : isBlank c = false)
      (hline : '\n' ∈ gap → scan.afterNewline = true ∨ leadsToPipe false (c :: cs) = true) :
      Step scan ((scan.past gap (c :: cs)).emit (Lexeme.scan scan.opening c cs).kind
        (Lexeme.scan scan.opening c cs).text (Lexeme.scan scan.opening c cs).rest)

variable {scan after : Scan} {token : Token}

theorem past_past (first second rest rest' : List Char) :
    (scan.past first rest).past second rest' = scan.past (first ++ second) rest' := by
  simp [past, Text.Cursor.advance_append]

/-- Behind blanks, a step that finds no line break to take comes to a lexeme or to the end. -/
theorem step_visible {gap rest : List Char} (hrest : scan.rest = gap ++ rest)
    (hgap : ∀ c ∈ gap, isBlank c = true) (hnext : ∀ c ∈ rest.head?, isBlank c = false)
    (hline : '\n' ∈ gap → scan.afterNewline = true ∨ leadsToPipe false rest = true) :
    Step scan (scan.past gap rest).visible := by
  cases rest with
  | nil =>
      rw [List.append_nil] at hrest
      subst hrest
      exact .finish hgap fun h => (hline h).resolve_right (by simp [leadsToPipe])
  | cons c cs => exact .lexeme hrest hgap (hnext c rfl) hline

/-- What is skipped is of the class, and what comes next is not. -/
theorem exists_skip (p : Char → Bool) (scan : Scan) :
    ∃ gap rest, scan.rest = gap ++ rest ∧ (∀ c ∈ gap, p c = true) ∧
      (∀ c ∈ rest.head?, p c = false) ∧ scan.rest.takeWhile p = gap ∧
      scan.skip p = scan.past gap rest := by
  refine ⟨_, _, List.takeWhile_append_dropWhile.symm, ?_, ?_, rfl, rfl⟩
  · exact List.all_eq_true.1 List.all_takeWhile
  · intro c hc
    have hnot := List.head?_dropWhile_not p scan.rest
    rw [Option.mem_def.1 hc] at hnot
    simpa using hnot

/-- **The scanner goes on by steps.** -/
theorem step_next (scan : Scan) : Step scan scan.next := by
  obtain ⟨spaces, rest, hrest, hspaces, hnext, -, hskip⟩ := exists_skip isSpacing scan
  have hgap : ∀ c ∈ spaces, isBlank c = true :=
    fun c hc => Text.isBlank_of_isSpacing (hspaces c hc)
  rw [next, hskip, nextUnspaced]
  by_cases hhead : rest.head? = some '\n'
  · obtain ⟨breaks, rest', hrest', hbreaks, hvisible, htake, hskip'⟩ :=
      exists_skip isBlank (scan.past spaces rest)
    rw [past_rest] at hrest'
    subst hrest'
    rw [past_rest] at htake
    simp only [past_rest, hhead, if_true, hskip', htake, past_afterNewline]
    by_cases hcond : (scan.afterNewline || leadsToPipe false rest') = true
    · rw [if_pos hcond, past_past]
      refine step_visible (by rw [hrest, List.append_assoc]) ?_ hvisible ?_
      · intro c hc
        exact (List.mem_append.1 hc).elim (hgap c) (hbreaks c)
      · intro _
        simpa using hcond
    · rw [if_neg hcond]
      obtain ⟨hafter, hpipe⟩ := Bool.or_eq_false_iff.1 (Bool.eq_false_iff.2 hcond)
      refine .newline hrest hspaces hbreaks ?_ hvisible hafter hpipe
      cases breaks with
      | nil => exact absurd (hvisible '\n' hhead) (by simp)
      | cons c breaks => exact hhead
  · rw [past_rest, if_neg hhead]
    refine step_visible hrest hgap ?_ ?_
    · intro c hc
      have hspacing := hnext c hc
      have hne : c ≠ '\n' := by
        rintro rfl
        exact hhead hc
      simpa [Text.isSpacing, hne] using hspacing
    · intro hline
      exact absurd (hspaces _ hline) (by simp)

/-! ### There is one step -/

/-- A text divides in one way into characters of a class and others behind them, and so does any
list. -/
theorem append_inj_of_class {α : Type} {p : α → Bool} {gap gap' rest rest' : List α}
    (h : gap ++ rest = gap' ++ rest') (hgap : ∀ c ∈ gap, p c = true)
    (hgap' : ∀ c ∈ gap', p c = true) (hrest : ∀ c ∈ rest.head?, p c = false)
    (hrest' : ∀ c ∈ rest'.head?, p c = false) : gap = gap' ∧ rest = rest' := by
  have htake {gap rest : List α} (hgap : ∀ c ∈ gap, p c = true)
      (hrest : ∀ c ∈ rest.head?, p c = false) : (gap ++ rest).takeWhile p = gap := by
    rw [List.takeWhile_append_of_pos hgap]
    cases rest with
    | nil => simp
    | cons c rest => simp [hrest c rfl]
  have heq : gap = gap' := by rw [← htake hgap hrest, h, htake hgap' hrest']
  exact ⟨heq, List.append_cancel_left (heq ▸ h)⟩

theorem isBlank_of_mem_append {spaces breaks : List Char}
    (hspaces : ∀ c ∈ spaces, isSpacing c = true) (hbreaks : ∀ c ∈ breaks, isBlank c = true) :
    ∀ c ∈ spaces ++ breaks, isBlank c = true := by
  intro c hc
  rcases List.mem_append.1 hc with hc | hc
  · exact Text.isBlank_of_isSpacing (hspaces c hc)
  · exact hbreaks c hc

/-- Where a line break is to be taken, a step takes it. -/
theorem Step.eq_newline {next : Token × Scan} {spaces breaks rest : List Char}
    (h : Step scan next) (hrest : scan.rest = spaces ++ (breaks ++ rest))
    (hspaces : ∀ c ∈ spaces, isSpacing c = true) (hbreaks : ∀ c ∈ breaks, isBlank c = true)
    (hfirst : breaks.head? = some '\n') (hnext : ∀ c ∈ rest.head?, isBlank c = false)
    (hafter : scan.afterNewline = false) (hpipe : leadsToPipe false rest = false) :
    next = (scan.past spaces (breaks ++ rest)).emit .newline breaks rest := by
  have hmem : '\n' ∈ spaces ++ breaks := List.mem_append_right _ (List.mem_of_head? hfirst)
  cases h with
  | finish _ hline =>
      have hline := hline (by rw [hrest, ← List.append_assoc]; exact List.mem_append_left _ hmem)
      rw [hafter] at hline
      contradiction
  | newline hrest' hspaces' hbreaks' hfirst' hnext' _ _ =>
      rw [hrest] at hrest'
      obtain ⟨rfl, heq⟩ := append_inj_of_class hrest' hspaces hspaces' (by simp [hfirst])
        (by simp [hfirst'])
      obtain ⟨rfl, rfl⟩ := append_inj_of_class heq hbreaks hbreaks' hnext hnext'
      rfl
  | lexeme hrest' hgap hc hline =>
      rw [hrest, ← List.append_assoc] at hrest'
      obtain ⟨rfl, rfl⟩ := append_inj_of_class hrest' (isBlank_of_mem_append hspaces hbreaks) hgap
        hnext (by simpa using hc)
      exact absurd (hline hmem) (by simp [hafter, hpipe])

/-- **There is one step** from a scan. -/
theorem Step.unique {next next' : Token × Scan} (h : Step scan next) (h' : Step scan next') :
    next = next' := by
  -- a character that is not blank comes before the end of the text
  have hvisible {gap cs : List Char} {c : Char} (hrest : scan.rest = gap ++ c :: cs)
      (hblank : ∀ c ∈ scan.rest, isBlank c = true) : isBlank c = true :=
    hblank c (by simp [hrest])
  cases h with
  | finish hgap hline =>
      cases h' with
      | finish _ _ => rfl
      | newline hrest hspaces hbreaks hfirst hnext hafter hpipe =>
          exact (Step.finish hgap hline).eq_newline hrest hspaces hbreaks hfirst hnext hafter hpipe
      | lexeme hrest _ hc _ => simp [hvisible hrest hgap] at hc
  | newline hrest hspaces hbreaks hfirst hnext hafter hpipe =>
      exact (h'.eq_newline hrest hspaces hbreaks hfirst hnext hafter hpipe).symm
  | lexeme hrest hgap hc hline =>
      cases h' with
      | finish hgap' _ => simp [hvisible hrest hgap'] at hc
      | newline hrest' hspaces hbreaks hfirst hnext hafter hpipe =>
          exact (Step.lexeme hrest hgap hc hline).eq_newline hrest' hspaces hbreaks hfirst hnext
            hafter hpipe
      | lexeme hrest' hgap' hc' _ =>
          rw [hrest] at hrest'
          obtain ⟨rfl, heq⟩ := append_inj_of_class hrest' hgap hgap' (by simpa using hc)
            (by simpa using hc')
          obtain ⟨rfl, rfl⟩ := List.cons.inj heq
          rfl

/-! ### Runs -/

/-- The tokens are the one that a step comes to, and those behind it. -/
theorem tokens_of_step {next : Token × Scan} (h : Step scan next) :
    scan.tokens = if next.1.kind = .endOfInput then [next.1] else next.1 :: next.2.tokens := by
  rw [tokens_eq, h.unique (step_next scan)]

/-- **Induction along the tokens of a text**, from its end. -/
theorem tokens_induction {motive : Scan → List Token → Prop}
    (last : ∀ scan token after, Step scan (token, after) → token.kind = .endOfInput →
      motive scan [token])
    (step : ∀ scan token after, Step scan (token, after) → token.kind ≠ .endOfInput →
      motive after after.tokens → motive scan (token :: after.tokens))
    (scan : Scan) : motive scan scan.tokens := by
  induction scan using tokens.induct with
  | case1 scan hend =>
      rw [tokens_eq, if_pos hend]
      exact last scan _ scan.next.2 (step_next scan) hend
  | case2 scan hend ih =>
      rw [tokens_eq, if_neg hend]
      exact step scan _ scan.next.2 (step_next scan) hend ih

/-- What a step keeps of the scan, and gives of its token, holds of all tokens. -/
theorem forall_mem_tokens {keeps : Scan → Prop} {gives : Token → Prop}
    (h : ∀ scan token after, keeps scan → Step scan (token, after) → gives token ∧ keeps after)
    {scan : Scan} (hscan : keeps scan) : ∀ token ∈ scan.tokens, gives token := by
  refine tokens_induction (motive := fun scan tokens => keeps scan → ∀ token ∈ tokens, gives token)
    ?_ ?_ scan hscan
  · intro scan token after hstep _ hscan
    simpa using (h scan token after hscan hstep).1
  · intro scan token after hstep _ ih hscan
    obtain ⟨htoken, hafter⟩ := h scan token after hscan hstep
    simpa using ⟨htoken, ih hafter⟩

/-- The last token of a text is its end, and no other token is. -/
theorem exists_tokens_eq (scan : Scan) :
    ∃ front last, scan.tokens = front ++ [last] ∧ last.kind = .endOfInput ∧
      ∀ token ∈ front, token.kind ≠ .endOfInput := by
  refine tokens_induction (motive := fun _ tokens => ∃ front last, tokens = front ++ [last] ∧
    last.kind = .endOfInput ∧ ∀ token ∈ front, token.kind ≠ .endOfInput) ?_ ?_ scan
  · intro scan token after _ hend
    exact ⟨[], token, rfl, hend, by simp⟩
  · rintro scan token after _ hkind ⟨front, last, htokens, hlast, hfront⟩
    refine ⟨token :: front, last, by rw [htokens, List.cons_append], hlast, ?_⟩
    simpa using ⟨hkind, hfront⟩

/-! ### Significant tokens -/

/-- The tokens from here to the end of the text that are no comments. -/
def significant (scan : Scan) : List Token := scan.tokens.filter fun token => !token.kind.isTrivia

variable {next : Token × Scan}

theorem significant_of_end (h : Step scan next) (hkind : next.1.kind = .endOfInput) :
    scan.significant = [next.1] := by
  rw [significant, tokens_of_step h, if_pos hkind]
  simp [hkind, TokenKind.isTrivia]

theorem significant_of_step (h : Step scan next) (hkind : next.1.kind ≠ .endOfInput)
    (htrivia : next.1.kind.isTrivia = false) :
    scan.significant = next.1 :: next.2.significant := by
  rw [significant, tokens_of_step h, if_neg hkind, List.filter_cons_of_pos (by simp [htrivia])]
  rfl

theorem significant_of_comment (h : Step scan next) (htrivia : next.1.kind.isTrivia = true) :
    scan.significant = next.2.significant := by
  have hkind : next.1.kind ≠ .endOfInput := by
    intro hkind
    rw [hkind] at htrivia
    contradiction
  rw [significant, tokens_of_step h, if_neg hkind, List.filter_cons_of_neg (by simp [htrivia])]
  rfl

/-- At the end of a text there is nothing but its end. -/
theorem exists_significant_eq (hrest : scan.rest = []) : ∃ eof, scan.significant = [eof] := by
  have hstep : Step scan _ := .finish (by simp [hrest]) (by simp [hrest])
  exact ⟨_, significant_of_end hstep rfl⟩

/-! ### Places -/

/-- A scan is at the place where the rest of its text begins. -/
def StandsIn (source : List Char) (scan : Scan) : Prop :=
  ∃ before, before ++ scan.rest = source ∧ scan.cursor = Text.Cursor.origin.advance before

theorem standsIn_ofSource (source : String) : (ofSource source).StandsIn source.toList :=
  ⟨[], rfl, rfl⟩

/-- A step divides the text that is left: a gap of blanks, the text of the token, and the rest. -/
theorem Step.divides (h : Step scan (token, after)) :
    ∃ gap text, gap ++ (text ++ after.rest) = scan.rest ∧ (∀ c ∈ gap, isBlank c = true) ∧
      token.span = (scan.cursor.advance gap).spanOf text ∧
      after.cursor = scan.cursor.advance (gap ++ text) := by
  cases h with
  | finish hgap _ => exact ⟨scan.rest, [], by simp [past], hgap, rfl, by simp⟩
  | @newline spaces breaks rest hrest hspaces _ _ _ _ _ =>
      have hgap : ∀ c ∈ spaces, isBlank c = true :=
        fun c hc => Text.isBlank_of_isSpacing (hspaces c hc)
      refine ⟨spaces, breaks, hrest.symm, hgap, rfl, ?_⟩
      simp [Text.Cursor.advance_append]
  | @lexeme gap c cs hrest hgap _ _ =>
      refine ⟨gap, _, ?_, hgap, rfl, ?_⟩
      · rw [hrest]
        exact congrArg _ (Lexeme.text_append_rest_scan scan.opening c cs)
      · simp [Text.Cursor.advance_append]

end Scan

/-- A token covers a part of a text, at the place where the part begins. -/
def Token.StandsIn (source : List Char) (token : Token) : Prop :=
  ∃ before text after, before ++ (text ++ after) = source ∧
    token.span = (Text.Cursor.origin.advance before).spanOf text

namespace Scan

variable {scan after : Scan} {token : Token}

theorem StandsIn.step {source : List Char} (h : scan.StandsIn source)
    (hstep : Step scan (token, after)) : token.StandsIn source ∧ after.StandsIn source := by
  obtain ⟨before, hsource, hcursor⟩ := h
  obtain ⟨gap, text, hrest, -, hspan, hafter⟩ := hstep.divides
  rw [← hrest] at hsource
  constructor
  · refine ⟨before ++ gap, text, after.rest, by simpa using hsource, ?_⟩
    rw [hspan, hcursor, Text.Cursor.advance_append]
  · refine ⟨before ++ (gap ++ text), by simpa using hsource, ?_⟩
    rw [hafter, hcursor, ← Text.Cursor.advance_append]

end Scan

namespace Token

/-- **Every token of a text stands in it.** -/
theorem standsIn_of_mem {source : String} {token : Token} (h : token ∈ ofSource source) :
    token.StandsIn source.toList :=
  Scan.forall_mem_tokens (fun _ _ _ hscan hstep => hscan.step hstep)
    (Scan.standsIn_ofSource source) token h

end Token

/-! ### Streams of texts -/

/-- The significant tokens of a text are some tokens and its end. -/
theorem Token.exists_significant_eq (source : String) :
    ∃ front last, Token.significant source = front ++ [last] ∧ last.kind = .endOfInput ∧
      ∀ token ∈ front, token.kind ≠ .endOfInput := by
  obtain ⟨front, last, htokens, hlast, hfront⟩ := (Scan.ofSource source).exists_tokens_eq
  refine ⟨front.filter fun token => !token.kind.isTrivia, last, ?_, hlast, ?_⟩
  · rw [significant, ofSource, htokens, List.filter_append]
    simp [hlast, TokenKind.isTrivia]
  · intro token htoken
    exact hfront token (List.mem_filter.1 htoken).1

namespace TokenStream

@[simp] theorem toList_ofSource (source : String) :
    (ofSource source).toList = Token.significant source := by
  obtain ⟨front, last, htokens, -, -⟩ := Token.exists_significant_eq source
  rw [ofSource, htokens]
  cases front <;> rfl

/-- A stream ends with the end of the text if this is its last token, and no other token is. -/
theorem terminated_of_toList_eq {stream : TokenStream} {front : List Token} {last : Token}
    (hlist : stream.toList = front ++ [last]) (hlast : last.kind = .endOfInput)
    (hfront : ∀ token ∈ front, token.kind ≠ .endOfInput) : stream.Terminated := by
  rintro token back ⟨before, hback⟩
  rw [hlist] at hback
  rcases List.eq_nil_or_concat back with rfl | ⟨back, other, rfl⟩
  · have heq := List.append_inj_right' hback rfl
    simp_all
  · rw [List.concat_eq_append, ← List.cons_append, ← List.append_assoc] at hback
    have heq := List.append_inj_left' hback rfl
    have hmem : token ∈ front := by simp [← heq]
    simp [hfront token hmem]

/-- The stream of a text ends with the end of the text. -/
theorem terminated_ofSource (source : String) : (ofSource source).Terminated := by
  obtain ⟨front, last, htokens, hlast, hfront⟩ := Token.exists_significant_eq source
  exact terminated_of_toList_eq ((toList_ofSource source).trans htokens) hlast hfront

end TokenStream

end GrammarCatalog
