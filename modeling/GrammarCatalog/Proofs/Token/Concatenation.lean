/-
**Texts one below the other.**

A text with another one below it has the tokens of both, with a line break between them.  No lexeme
goes on behind a line feed, so the first text is read as it is by itself, up to its end or to the
line break in front of it.  There one line break leads to the second text, whatever stands between,
because a line break passes over the blank lines that follow it.

Main definitions:

* `GrammarCatalog.Scan.extend`, `GrammarCatalog.Scan.below` — a scan of a text that goes on, and the
  scan behind this text, in front of another one;
* `GrammarCatalog.Scan.Joins` — how the tokens of two texts are joined;
* `GrammarCatalog.Scan.Meets` — **the invariant**: what another text below makes of a scan.

Main results:

* `GrammarCatalog.Scan.Step.extend` — steps are the same where another text stands below;
* `GrammarCatalog.Token.exists_joins` — **the tokens of two texts** one below the other.
-/

import GrammarCatalog.Proofs.Token.LineBreaks
import GrammarCatalog.Proofs.Token.LexemeEnds
import GrammarCatalog.Proofs.Token.Shift

set_option relaxedAutoImplicit false
set_option autoImplicit false

namespace GrammarCatalog

namespace Scan

open Text (isBlank isSpacing)

variable {scan after : Scan} {token : Token} {next : Token × Scan}

/-! ### Runs past blanks -/

/-- Blanks are skipped where no line break among them is to be taken. -/
theorem Step.of_past {gap rest : List Char} {next : Token × Scan}
    (h : Step (scan.past gap rest) next) (hrest : scan.rest = gap ++ rest)
    (hgap : ∀ c ∈ gap, isBlank c = true)
    (hskip : '\n' ∈ gap → scan.afterNewline = true ∨ leadsToPipe false rest = true) :
    Step scan next := by
  cases h with
  | finish hblank hline =>
      rw [past_rest] at hblank hline
      have hall : ∀ c ∈ scan.rest, isBlank c = true := by
        rw [hrest]
        exact fun c hc => (List.mem_append.1 hc).elim (hgap c) (hblank c)
      have hnot : leadsToPipe false rest = false := by
        rw [← List.append_nil rest, leadsToPipe_append hblank]
        rfl
      have hstep := Step.finish hall fun hmem => by
        rw [hrest] at hmem
        rcases List.mem_append.1 hmem with hmem | hmem
        · exact (hskip hmem).resolve_right (by simp [hnot])
        · exact hline hmem
      rwa [past_rest, past_past, past_cursor, ← Text.Cursor.advance_append, ← hrest]
  | @newline spaces breaks rest' hrest' hspaces hbreaks hfirst hnext hafter hpipe =>
      rw [past_rest] at hrest'
      subst hrest'
      have hnot : '\n' ∉ gap := by
        intro hmem
        rcases hskip hmem with hskip | hskip
        · exact absurd hskip (by simpa using hafter)
        · rw [← List.append_assoc, leadsToPipe_append (isBlank_of_mem_append hspaces hbreaks),
            hpipe] at hskip
          contradiction
      rw [past_past]
      refine .newline (hrest.trans (List.append_assoc _ _ _).symm) ?_ hbreaks hfirst hnext hafter
        hpipe
      intro c hc
      rcases List.mem_append.1 hc with hc | hc
      · refine (Text.isSpacing_iff c).2 ⟨?_, hgap c hc⟩
        rintro rfl
        exact hnot hc
      · exact hspaces c hc
  | @lexeme gap' c cs hrest' hgap' hc hline =>
      rw [past_rest] at hrest'
      subst hrest'
      rw [past_past]
      refine .lexeme (hrest.trans (List.append_assoc _ _ _).symm)
        (fun d hd => (List.mem_append.1 hd).elim (hgap d) (hgap' d)) hc fun hmem => ?_
      rcases List.mem_append.1 hmem with hmem | hmem
      · rw [← leadsToPipe_append hgap']
        exact hskip hmem
      · exact hline hmem

theorem significant_past {gap rest : List Char} (hrest : scan.rest = gap ++ rest)
    (hgap : ∀ c ∈ gap, isBlank c = true)
    (hskip : '\n' ∈ gap → scan.afterNewline = true ∨ leadsToPipe false rest = true) :
    (scan.past gap rest).significant = scan.significant := by
  have hstep := (step_next (scan.past gap rest)).of_past hrest hgap hskip
  have htokens : (scan.past gap rest).tokens = scan.tokens := by
    rw [tokens_eq, hstep.unique (step_next scan), ← tokens_eq]
  rw [significant, htokens]
  rfl

/-! ### The seam -/

/-- A bar that comes next still does where the text goes on. -/
theorem leadsToPipe_append_of_true {flag : Bool} {cs : List Char}
    (h : leadsToPipe flag cs = true) (more : List Char) : leadsToPipe flag (cs ++ more) = true := by
  fun_induction leadsToPipe flag cs with
  | case1 => contradiction
  | case2 c cs ih => exact ih h
  | case3 => rfl
  | case4 cs ih => exact ih h
  | case5 cs ih => exact ih h
  | case6 c cs _ _ _ ih =>
      rw [Bool.and_eq_true] at h
      rw [List.cons_append, leadsToPipe_cons_of_blank h.1]
      exact ih h.2

/-- No bar comes next in another text below, if that does not begin with one. -/
theorem leadsToPipe_append_newline {more : List Char} (hmore : leadsToPipe false more = false)
    (flag : Bool) (cs : List Char) :
    leadsToPipe flag (cs ++ '\n' :: more) = leadsToPipe flag cs := by
  fun_induction leadsToPipe flag cs with
  | case1 flag =>
      cases flag with
      | false => rw [List.nil_append, leadsToPipe_cons_of_blank Text.isBlank_newline, hmore]
      | true => rwa [List.nil_append, leadsToPipe]
  | case2 c cs ih => exact ih
  | case3 => rfl
  | case4 cs ih => exact ih
  | case5 cs ih => exact ih
  | case6 c cs hpipe hhash hslash ih =>
      rw [List.cons_append, leadsToPipe.eq_6, ih]
      · exact hpipe
      · exact hhash
      · rintro others hc hcs
        cases cs with
        | nil => simp at hcs
        | cons d cs => exact hslash cs hc (by simp_all)

/-- The same scan of a text that goes on. -/
def extend (scan : Scan) (more : List Char) : Scan := { scan with rest := scan.rest ++ more }

/-- The scan behind the text that is left and a line feed, in front of another text. -/
def below (scan : Scan) (more : List Char) : Scan :=
  ⟨more, (scan.cursor.advance scan.rest).step '\n', true, true⟩

/-- Tokens of a text, and those of a text with another one below it, of which the tokens are given:
the first of them are the same, up to the end of the first text or a line break in front of it;
at this place, a line break leads to the tokens of the other text. -/
def Joins (first joined back : List Token) : Prop :=
  ∃ front last tail newline, first = front ++ last :: tail ∧ joined = front ++ newline :: back ∧
    newline.kind = .newline ∧ newline.span.collapse = last.span.collapse ∧
    (last.kind = .endOfInput ∧ tail = [] ∨ last.kind = .newline ∧ ∃ eof, tail = [eof])

theorem Joins.cons {first joined back : List Token} (h : Joins first joined back) (token : Token) :
    Joins (token :: first) (token :: joined) back := by
  obtain ⟨front, last, tail, newline, rfl, rfl, h⟩ := h
  exact ⟨token :: front, last, tail, newline, rfl, rfl, h⟩

@[simp] theorem collapse_spanOf (cursor : Text.Cursor) (text : List Char) :
    (cursor.spanOf text).collapse = cursor.spanOf [] := rfl

variable {more : List Char}

/-- Behind a line break, blanks in front of the text below are skipped. -/
theorem significant_extend_of_blank (hblank : ∀ c ∈ scan.rest, isBlank c = true)
    (hafter : scan.afterNewline = true) (hopening : scan.opening = true) :
    (scan.extend ('\n' :: more)).significant = (scan.below more).significant := by
  have hrest : (scan.extend ('\n' :: more)).rest = (scan.rest ++ ['\n']) ++ more := by
    simp [extend]
  have hpast : (scan.extend ('\n' :: more)).past (scan.rest ++ ['\n']) more = scan.below more := by
    simp [past, extend, below, Text.Cursor.advance_append, hafter, hopening]
  have hafter' : (scan.extend ('\n' :: more)).afterNewline = true := hafter
  rw [← hpast, significant_past hrest ?_ fun _ => Or.inl hafter']
  intro c hc
  rcases List.mem_append.1 hc with hc | hc
  · exact hblank c hc
  · obtain rfl : c = '\n' := by simpa using hc
    exact Text.isBlank_newline

/-- Where no statement has ended yet, a line break leads to the text below. -/
theorem exists_significant_extend {spaces breaks : List Char} (hrest : scan.rest = spaces ++ breaks)
    (hspaces : ∀ c ∈ spaces, isSpacing c = true) (hbreaks : ∀ c ∈ breaks, isBlank c = true)
    (hfirst : ∀ c ∈ breaks.head?, c = '\n') (hafter : scan.afterNewline = false)
    (hmore : leadsToPipe false more = false) :
    ∃ newline, (scan.extend ('\n' :: more)).significant =
        newline :: (scan.below more).significant ∧
      newline.kind = .newline ∧ newline.span.collapse = (scan.cursor.advance spaces).spanOf [] := by
  obtain ⟨gap, rest, hmore', hgap, hnext, -, -⟩ := exists_skip isBlank (scan.below more)
  change more = gap ++ rest at hmore'
  -- the line break takes what is left, the line feed and the blanks below
  have hrest' : (scan.extend ('\n' :: more)).rest =
      spaces ++ ((breaks ++ '\n' :: gap) ++ rest) := by
    simp [extend, hrest, hmore']
  have hblank : ∀ c ∈ breaks ++ '\n' :: gap, isBlank c = true := by
    intro c hc
    rcases List.mem_append.1 hc with hc | hc
    · exact hbreaks c hc
    · rcases List.mem_cons.1 hc with rfl | hc
      · exact Text.isBlank_newline
      · exact hgap c hc
  have hhead : (breaks ++ '\n' :: gap).head? = some '\n' := by
    cases breaks with
    | nil => rfl
    | cons c breaks => simp [hfirst c rfl]
  have hpipe : leadsToPipe false rest = false := by rwa [← leadsToPipe_append hgap, ← hmore']
  have hstep := Step.newline hrest' hspaces hblank hhead hnext hafter hpipe
  have hsignificant := significant_of_step hstep (by simp [emit]) rfl
  have hbelow : (scan.below more).afterNewline = true := rfl
  have hnext : (((scan.extend ('\n' :: more)).past spaces
      ((breaks ++ '\n' :: gap) ++ rest)).emit .newline (breaks ++ '\n' :: gap) rest).2 =
        (scan.below more).past gap rest := by
    simp [emit, past, below, extend, hrest, opensAfter, newlineAfter, Text.Cursor.advance_append]
  rw [hnext, significant_past hmore' hgap fun _ => Or.inl hbelow] at hsignificant
  exact ⟨_, hsignificant, rfl, rfl⟩

/-- Behind a step the text below is at the same place. -/
theorem Step.below_eq (h : Step scan next) : next.2.below more = scan.below more := by
  obtain ⟨gap, text, hrest, -, -, hcursor⟩ := h.divides
  simp [below, ← hrest, hcursor, Text.Cursor.advance_append]

theorem Step.afterNewline_eq (h : Step scan next) (hkind : next.1.kind ≠ .endOfInput) :
    next.2.afterNewline = newlineAfter scan.afterNewline next.1.kind := by
  cases h with
  | finish _ _ => exact absurd rfl hkind
  | newline _ _ _ _ _ _ _ => rfl
  | lexeme _ _ _ _ => rfl

theorem Step.opening_eq (h : Step scan next) (hkind : next.1.kind ≠ .endOfInput) :
    next.2.opening = opensAfter scan.opening next.1.kind := by
  cases h with
  | finish _ _ => exact absurd rfl hkind
  | newline _ _ _ _ _ _ _ => rfl
  | lexeme _ _ _ _ => rfl

/-- Where a statement has ended, a definition may begin. -/
theorem Step.opening_of_afterNewline (h : Step scan next) (hkind : next.1.kind ≠ .endOfInput)
    (hopening : scan.afterNewline = true → scan.opening = true)
    (hafter : next.2.afterNewline = true) : next.2.opening = true := by
  rw [h.afterNewline_eq hkind] at hafter
  rw [h.opening_eq hkind]
  cases hnext : next.1.kind with
  | newline => rfl
  | comment text =>
      rw [hnext] at hafter
      exact hopening hafter
  | _ =>
      rw [hnext] at hafter
      contradiction

/-- A step is the same where another text stands below, unless it takes the last line break. -/
theorem Step.extend (h : Step scan next) (hkind : next.1.kind ≠ .endOfInput)
    (hmore : leadsToPipe false more = false)
    (hlast : next.1.kind = .newline → next.2.rest ≠ []) :
    Step (scan.extend ('\n' :: more)) (next.1, next.2.extend ('\n' :: more)) := by
  cases h with
  | finish _ _ => exact absurd rfl hkind
  | @newline spaces breaks rest hrest hspaces hbreaks hfirst hnext hafter hpipe =>
      have hrest' : (scan.extend ('\n' :: more)).rest =
          spaces ++ (breaks ++ (rest ++ '\n' :: more)) := by simp [Scan.extend, hrest]
      have hnext' : ∀ c ∈ (rest ++ '\n' :: more).head?, isBlank c = false := by
        cases rest with
        | nil => exact absurd rfl (hlast rfl)
        | cons c rest => exact hnext
      rw [← leadsToPipe_append_newline hmore] at hpipe
      exact .newline hrest' hspaces hbreaks hfirst hnext' hafter hpipe
  | @lexeme gap c cs hrest hgap hc hline =>
      have hrest' : (scan.extend ('\n' :: more)).rest = gap ++ c :: (cs ++ '\n' :: more) := by
        simp [Scan.extend, hrest]
      have hline' : '\n' ∈ gap → scan.afterNewline = true ∨
          leadsToPipe false (c :: (cs ++ '\n' :: more)) = true :=
        fun hmem => (hline hmem).imp_right fun hpipe => leadsToPipe_append_of_true hpipe _
      have hstep := Step.lexeme hrest' hgap hc hline'
      rwa [Lexeme.scan_append_newline] at hstep

/-- What another text below makes of a scan: its tokens are joined to those of the scan, or a
statement has just ended and only blanks and comments are left in front of them. -/
def Meets (more : List Char) (scan : Scan) : Prop :=
  Joins scan.significant (scan.extend ('\n' :: more)).significant (scan.below more).significant ∨
    scan.afterNewline = true ∧ (∃ eof, scan.significant = [eof]) ∧
      (scan.extend ('\n' :: more)).significant = (scan.below more).significant

/-- A step to the end of the text passes blanks only. -/
theorem Step.isBlank_of_end (h : Step scan next) (hend : next.1.kind = .endOfInput) :
    (∀ c ∈ scan.rest, isBlank c = true) ∧ ('\n' ∈ scan.rest → scan.afterNewline = true) ∧
      next.1.span = (scan.cursor.advance scan.rest).spanOf [] := by
  cases h with
  | finish hgap hline => exact ⟨hgap, hline, rfl⟩
  | newline _ _ _ _ _ _ _ => cases hend
  | @lexeme gap c cs _ _ _ _ => exact absurd hend (Lexeme.kind_scan_ne scan.opening c cs).2

/-- At the end of the first text, the text below is met. -/
theorem Step.meets_of_end (h : Step scan next) (hend : next.1.kind = .endOfInput)
    (hmore : leadsToPipe false more = false)
    (hopening : scan.afterNewline = true → scan.opening = true) : scan.Meets more := by
  have hsignificant := significant_of_end h hend
  obtain ⟨hgap, hline, hplace⟩ := h.isBlank_of_end hend
  cases hafter : scan.afterNewline with
  | true =>
      exact Or.inr ⟨hafter, ⟨_, hsignificant⟩,
        significant_extend_of_blank hgap hafter (hopening hafter)⟩
  | false =>
      have hspaces : ∀ c ∈ scan.rest, isSpacing c = true := by
        intro c hc
        refine (Text.isSpacing_iff c).2 ⟨?_, hgap c hc⟩
        rintro rfl
        simp [hline hc] at hafter
      obtain ⟨newline, hextend, hkind, hspan⟩ := exists_significant_extend
        (List.append_nil _).symm hspaces (by simp) (by simp) hafter hmore
      exact Or.inl ⟨[], next.1, [], newline, hsignificant, hextend, hkind,
        hspan.trans (by rw [hplace, collapse_spanOf]), Or.inl ⟨hend, rfl⟩⟩

/-- At the last line break of the first text, the text below is met. -/
theorem Step.meets_of_last (h : Step scan next) (hnewline : next.1.kind = .newline)
    (hrest : next.2.rest = []) (hmore : leadsToPipe false more = false) : scan.Meets more := by
  obtain ⟨eof, heof⟩ := exists_significant_eq hrest
  have hsignificant := significant_of_step h (by simp [hnewline]) (by rw [hnewline]; rfl)
  rw [heof] at hsignificant
  cases h with
  | finish _ _ => cases hnewline
  | @newline spaces breaks rest hrest' hspaces hbreaks hfirst _ hafter _ =>
      obtain rfl : rest = [] := hrest
      obtain ⟨newline, hextend, hkind, hspan⟩ := exists_significant_extend
        (by simpa using hrest') hspaces hbreaks (by simp [hfirst]) hafter hmore
      exact Or.inl ⟨[], _, [eof], newline, hsignificant, hextend, hkind, hspan,
        Or.inr ⟨rfl, eof, rfl⟩⟩
  | @lexeme gap c cs _ _ _ _ =>
      exact absurd hnewline (Lexeme.kind_scan_ne scan.opening c cs).1

/-- **A step in front of the seam**: what meets the text below behind it does so before it. -/
theorem Step.meets (h : Step scan next) (hkind : next.1.kind ≠ .endOfInput)
    (hmore : leadsToPipe false more = false)
    (hlast : next.1.kind = .newline → next.2.rest ≠ []) (hnext : next.2.Meets more) :
    scan.Meets more := by
  have hextend := h.extend hkind hmore hlast
  have hflag := h.afterNewline_eq hkind
  rw [Meets, h.below_eq] at hnext
  unfold Meets
  by_cases htrivia : next.1.kind.isTrivia = true
  · rw [significant_of_comment h htrivia, significant_of_comment hextend htrivia]
    cases hcomment : next.1.kind with
    | comment text =>
        simp only [hcomment, newlineAfter] at hflag
        rwa [hflag] at hnext
    | _ => simp [hcomment, TokenKind.isTrivia] at htrivia
  · have htrivia := Bool.eq_false_iff.2 htrivia
    rw [significant_of_step h hkind htrivia, significant_of_step hextend hkind htrivia]
    rcases hnext with hjoins | ⟨hafter, ⟨eof, heof⟩, hbelow⟩
    · exact Or.inl (hjoins.cons next.1)
    · -- the statement that has just ended did so with this line break
      rw [hflag] at hafter
      have hnewline : next.1.kind = .newline := by
        cases hnewline : next.1.kind <;> simp_all [newlineAfter, TokenKind.isTrivia]
      refine Or.inl ⟨[], next.1, [eof], next.1, ?_, ?_, hnewline, rfl,
        Or.inr ⟨hnewline, eof, rfl⟩⟩
      · rw [heof, List.nil_append]
      · rw [hbelow, List.nil_append]

/-- **A text below is met** behind all that is left of a scan. -/
theorem meets_of_leadsToPipe (hmore : leadsToPipe false more = false) (scan : Scan) :
    (scan.afterNewline = true → scan.opening = true) → scan.Meets more := by
  refine tokens_induction (motive := fun scan _ =>
    (scan.afterNewline = true → scan.opening = true) → scan.Meets more) ?_ ?_ scan
  · intro scan token after hstep hend hopening
    exact hstep.meets_of_end hend hmore hopening
  · intro scan token after hstep hkind ih hopening
    by_cases hlast : token.kind = .newline → after.rest ≠ []
    · exact hstep.meets hkind hmore hlast
        (ih (hstep.opening_of_afterNewline hkind hopening))
    · obtain ⟨hnewline, hrest⟩ := Classical.not_imp.1 hlast
      exact hstep.meets_of_last hnewline (Classical.not_not.1 hrest) hmore

/-! ### The text below by itself -/

/-- What comes next is a bar if it leads to one. -/
theorem exists_pipe_of_leadsToPipe (scan : Scan) : leadsToPipe false scan.rest = true →
    ∃ token back, scan.significant = token :: back ∧ token.kind = .punctuation .pipe := by
  refine tokens_induction (motive := fun scan _ => leadsToPipe false scan.rest = true →
    ∃ token back, scan.significant = token :: back ∧ token.kind = .punctuation .pipe) ?_ ?_ scan
  · intro scan token after hstep hend hpipe
    rw [← List.append_nil scan.rest, leadsToPipe_append (hstep.isBlank_of_end hend).1] at hpipe
    contradiction
  · intro scan token after hstep hkind ih hpipe
    cases hstep with
    | finish _ _ => exact absurd rfl hkind
    | newline hrest hspaces hbreaks _ _ _ hnot =>
        rw [hrest, ← List.append_assoc,
          leadsToPipe_append (isBlank_of_mem_append hspaces hbreaks), hnot] at hpipe
        contradiction
    | @lexeme gap c cs hrest hgap hc hline =>
        rw [hrest, leadsToPipe_append hgap] at hpipe
        have hstep := Step.lexeme hrest hgap hc hline
        by_cases hcomment : Lexeme.BeginsComment c cs
        · rw [Lexeme.leadsToPipe_of_beginsComment hcomment] at hpipe
          rw [Lexeme.scan_of_beginsComment scan.opening hcomment] at hstep ih
          rw [significant_of_comment hstep rfl]
          exact ih hpipe
        · have hbreaks := Lexeme.breaks_scan scan.opening hcomment
          have hbar := (Lexeme.leadsToPipe_of_not_beginsComment hcomment hc).1 hpipe
          exact ⟨_, _, significant_of_step hstep hkind hbreaks.isTrivia, hbreaks.pipe_iff.2 hbar⟩

/-- The same scan where a statement has just ended. -/
def ended (scan : Scan) : Scan := { scan with afterNewline := true }

/-- Where a statement has just ended, the first line break is passed over. -/
theorem significant_ended (scan : Scan) : scan.opening = true → scan.afterNewline = false →
    scan.significant = scan.ended.significant ∨
      ∃ newline : Token, newline.kind = .newline ∧
        scan.significant = newline :: scan.ended.significant := by
  refine tokens_induction (motive := fun scan _ => scan.opening = true →
    scan.afterNewline = false → scan.significant = scan.ended.significant ∨
      ∃ newline : Token, newline.kind = .newline ∧
        scan.significant = newline :: scan.ended.significant) ?_ ?_ scan
  · intro scan token after hstep hend _ _
    rw [significant_of_end hstep hend]
    cases hstep with
    | finish hgap _ =>
        have hstep : Step scan.ended _ := .finish hgap fun _ => rfl
        rw [significant_of_end hstep rfl]
        exact Or.inl rfl
    | newline _ _ _ _ _ _ _ => cases hend
    | @lexeme gap c cs _ _ _ _ => exact absurd hend (Lexeme.kind_scan_ne scan.opening c cs).2
  · intro scan token after hstep hkind ih hopening hafter
    cases hstep with
    | finish _ _ => exact absurd rfl hkind
    | @newline spaces breaks rest hrest hspaces hbreaks hfirst hnext _ hpipe =>
        have hstep := Step.newline hrest hspaces hbreaks hfirst hnext hafter hpipe
        have hpast : ((scan.past spaces (breaks ++ rest)).emit .newline breaks rest).2 =
            scan.ended.past (spaces ++ breaks) rest := by
          simp [past, emit, ended, opensAfter, newlineAfter, hopening, Text.Cursor.advance_append]
        have hended : scan.ended.rest = (spaces ++ breaks) ++ rest := by
          rw [List.append_assoc]
          exact hrest
        have hsignificant := significant_of_step hstep hkind rfl
        rw [hpast, significant_past hended (isBlank_of_mem_append hspaces hbreaks)
          fun _ => Or.inl rfl] at hsignificant
        exact Or.inr ⟨_, rfl, hsignificant⟩
    | @lexeme gap c cs hrest hgap hc hline =>
        have hstep := Step.lexeme hrest hgap hc hline
        have hended : Step scan.ended _ := .lexeme hrest hgap hc fun _ => Or.inl rfl
        generalize hlexeme : Lexeme.scan scan.opening c cs = lexeme at hstep hkind ih
        change Step scan.ended ((scan.ended.past gap (c :: cs)).emit
          (Lexeme.scan scan.opening c cs).kind (Lexeme.scan scan.opening c cs).text
          (Lexeme.scan scan.opening c cs).rest) at hended
        rw [hlexeme] at hended
        by_cases htrivia : lexeme.kind.isTrivia = true
        · rw [significant_of_comment hstep htrivia, significant_of_comment hended htrivia]
          cases hcomment : lexeme.kind with
          | comment text =>
              rw [hcomment] at ih
              exact ih hopening hafter
          | _ => simp [hcomment, TokenKind.isTrivia] at htrivia
        · have htrivia := Bool.eq_false_iff.2 htrivia
          rw [significant_of_step hstep hkind htrivia, significant_of_step hended hkind htrivia]
          -- behind any other token it makes no difference what was before
          have hnext : ((scan.past gap (c :: cs)).emit lexeme.kind lexeme.text lexeme.rest).2 =
              ((scan.ended.past gap (c :: cs)).emit lexeme.kind lexeme.text lexeme.rest).2 := by
            cases hother : lexeme.kind with
            | comment text => simp [hother, TokenKind.isTrivia] at htrivia
            | _ => rfl
          rw [← hnext]
          exact Or.inl rfl

end Scan

namespace Token

/-- **The tokens of two texts** one below the other: those of the first, a line break, and those of
the second, moved, without the line break in front of them if there is one. -/
theorem exists_joins {source other : String} (h : Scan.leadsToPipe false other.toList = false) :
    ∃ back, Scan.Joins (significant source) (significant (source ++ "\n" ++ other))
        (back.map (shift (Text.byteLength source.toList + 1) (source.toList.count '\n' + 1))) ∧
      (significant other = back ∨
        ∃ newline, newline.kind = .newline ∧ significant other = newline :: back) := by
  have hextend : (Scan.ofSource source).extend ('\n' :: other.toList) =
      Scan.ofSource (source ++ "\n" ++ other) := by
    simp [Scan.extend, Scan.ofSource]
  have hbelow : (Scan.ofSource source).below other.toList = (Scan.ofSource other).ended.shift
      (Text.byteLength source.toList + 1) (source.toList.count '\n' + 1) := by
    simp only [Scan.below, Scan.shift, Scan.ended, Scan.ofSource, Scan.mk.injEq, true_and, and_true,
      Text.Cursor.step, if_true, Text.Cursor.shift, Text.Cursor.mk.injEq, Text.Cursor.line_advance,
      Text.Cursor.offset_advance, Text.Cursor.origin]
    have hsize : '\n'.utf8Size = 1 := rfl
    omega
  have hmeets := Scan.meets_of_leadsToPipe h (Scan.ofSource source) (by simp [Scan.ofSource])
  have hjoins := hmeets.resolve_right (by simp [Scan.ofSource])
  rw [hextend, hbelow, Scan.significant_shift] at hjoins
  exact ⟨_, hjoins, Scan.significant_ended (Scan.ofSource other) rfl rfl⟩

end Token

end GrammarCatalog
