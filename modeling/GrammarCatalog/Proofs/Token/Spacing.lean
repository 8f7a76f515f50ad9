/-
**Blanks between tokens.**

More blanks where a token begins or ends change no token, as long as they end no line and the text
is spelled well.  A token in its own right is the same in front of a blank and in front of the token
that came behind it, a comment takes the blanks at its end, and a line break those at its end; all
other blanks are skipped.  Where no token is a defect, none runs on, so the tokens that are no
comments stay, on their lines.

Main definitions:

* `GrammarCatalog.Text.spacedBehind`, `GrammarCatalog.Text.spaced` — a text with more blanks at some
  offsets;
* `GrammarCatalog.Scan.TakesBlanks` — blanks are put where tokens begin or end, in a text that is
  spelled well;
* `GrammarCatalog.Scan.spacedAt` — a scan with more blanks in what is left of its text.

Main results:

* `GrammarCatalog.Scan.TakesBlanks.replaces` — what is left with more blanks may stand in the place
  of what is left;
* `GrammarCatalog.Scan.leadsToPipe_spacedBehind` — what comes next is the same with more blanks;
* `GrammarCatalog.Token.forall₂_spaced` — **the tokens that are no comments stay**.
-/

import GrammarCatalog.Proofs.Token.Comments
import GrammarCatalog.Proofs.Token.Replaced

set_option relaxedAutoImplicit false
set_option autoImplicit false

namespace GrammarCatalog

open Text (byteLength isBlank isSpacing)

/-! ### Texts with more blanks -/

namespace Text

/-- A text that begins at an offset, with some characters more behind each of its own: those for the
offset there. -/
def spacedBehind (blanks : ℕ → List Char) : ℕ → List Char → List Char
  | _, [] => []
  | offset, c :: cs =>
      c :: (blanks (offset + c.utf8Size) ++ spacedBehind blanks (offset + c.utf8Size) cs)

/-- A text with some characters more at each offset from its beginning to its end. -/
def spaced (blanks : ℕ → List Char) (source : String) : String :=
  String.ofList (blanks 0 ++ spacedBehind blanks 0 source.toList)

variable {blanks : ℕ → List Char} {offset : ℕ} {cs : List Char}

theorem spacedBehind_append (blanks : ℕ → List Char) (offset : ℕ) (cs more : List Char) :
    spacedBehind blanks offset (cs ++ more) =
      spacedBehind blanks offset cs ++ spacedBehind blanks (offset + byteLength cs) more := by
  induction cs generalizing offset with
  | nil => rfl
  | cons c cs ih =>
      simp only [List.cons_append, spacedBehind, ih, byteLength_cons, Nat.add_assoc,
        List.append_assoc]

@[simp] theorem head?_spacedBehind (blanks : ℕ → List Char) (offset : ℕ) (cs : List Char) :
    (spacedBehind blanks offset cs).head? = cs.head? := by
  cases cs <;> rfl

/-- Nothing is put within a text that has no blanks there. -/
theorem spacedBehind_of_inner (hne : cs ≠ [])
    (h : ∀ other, offset < other → other < offset + byteLength cs → blanks other = []) :
    spacedBehind blanks offset cs = cs ++ blanks (offset + byteLength cs) := by
  induction cs generalizing offset with
  | nil => exact absurd rfl hne
  | cons c cs ih =>
      have hpos := c.utf8Size_pos
      simp only [byteLength_cons] at h ⊢
      cases cs with
      | nil => simp [spacedBehind]
      | cons d cs =>
          have hpos' := d.utf8Size_pos
          simp only [byteLength_cons] at h ih ⊢
          rw [spacedBehind, h _ (by omega) (by omega), ih (by simp) fun other hlow hhigh =>
            h other (by omega) (by omega)]
          simp [Nat.add_assoc]

/-- What holds of the characters of a text and of spacing holds of the text with more spacing. -/
theorem forall_mem_spacedBehind {p : Char → Prop}
    (hblanks : ∀ offset, ∀ c ∈ blanks offset, p c) (hcs : ∀ c ∈ cs, p c) :
    ∀ c ∈ spacedBehind blanks offset cs, p c := by
  induction cs generalizing offset with
  | nil => simp [spacedBehind]
  | cons c cs ih =>
      rw [List.forall_mem_cons] at hcs
      rw [spacedBehind]
      refine List.forall_mem_cons.2 ⟨hcs.1, fun d hd => ?_⟩
      exact (List.mem_append.1 hd).elim (hblanks _ d) (ih hcs.2 d)

/-- Spacing ends no line. -/
theorem count_spacedBehind (hblanks : ∀ offset, ∀ c ∈ blanks offset, isSpacing c = true)
    (offset : ℕ) (cs : List Char) :
    (spacedBehind blanks offset cs).count '\n' = cs.count '\n' := by
  induction cs generalizing offset with
  | nil => rfl
  | cons c cs ih =>
      have hnone (offset : ℕ) : (blanks offset).count '\n' = 0 :=
        List.count_eq_zero_of_not_mem fun hmem => absurd (hblanks offset _ hmem) (by simp)
      rw [spacedBehind, List.count_cons, List.count_cons, List.count_append, hnone, ih,
        Nat.zero_add]

theorem newline_mem_spacedBehind (hblanks : ∀ offset, ∀ c ∈ blanks offset, isSpacing c = true)
    (offset : ℕ) (cs : List Char) : '\n' ∈ spacedBehind blanks offset cs ↔ '\n' ∈ cs := by
  rw [← List.count_pos_iff, ← List.count_pos_iff, count_spacedBehind hblanks]

end Text

/-! ### Blanks where tokens begin or end -/

namespace Scan

variable {blanks : ℕ → List Char} {scan after : Scan} {token : Token}

/-- A step comes to one of the tokens. -/
theorem Step.mem_tokens {next : Token × Scan} (h : Step scan next) : next.1 ∈ scan.tokens := by
  rw [tokens_of_step h]
  split <;> simp

/-- No token stops before it starts. -/
theorem Tiles.start_le_stop {offset : ℕ} {cs : List Char} {tokens : List Token}
    (h : Tiles offset cs tokens) : ∀ token ∈ tokens, token.span.start ≤ token.span.stop := by
  induction h with
  | last _ _ _ hstop => simpa using hstop.ge
  | token _ _ _ _ hstop _ ih => exact List.forall_mem_cons.2 ⟨by omega, ih⟩

/-- More blanks are put where the tokens that are left begin or end, and none of these is a
defect. -/
structure TakesBlanks (blanks : ℕ → List Char) (scan : Scan) : Prop where
  /-- The blanks end no line. -/
  spacing : ∀ offset, ∀ c ∈ blanks offset, isSpacing c = true
  /-- They are put where tokens begin or end. -/
  edge : ∀ offset, scan.cursor.offset < offset → blanks offset ≠ [] →
    ∃ token ∈ scan.tokens, offset = token.span.start ∨ offset = token.span.stop
  /-- The text is spelled well. -/
  spelled : ∀ token ∈ scan.tokens, ∀ defect, token.kind ≠ .malformed defect

namespace TakesBlanks

theorem blank (h : scan.TakesBlanks blanks) (offset : ℕ) :
    ∀ c ∈ blanks offset, isBlank c = true :=
  fun c hc => Text.isBlank_of_isSpacing (h.spacing offset c hc)

/-- No blanks are put within a token. -/
theorem inner (h : scan.TakesBlanks blanks) (hstep : Step scan (token, after))
    (hkind : token.kind ≠ .endOfInput) :
    ∀ offset, token.span.start < offset → offset < token.span.stop → blanks offset = [] := by
  intro offset hstart hstop
  by_contra hne
  have htiles := tiles_tokens scan
  have htokens : scan.tokens = token :: after.tokens := by rw [tokens_of_step hstep, if_neg hkind]
  have hle := htiles.offset_le token (by simp [htokens])
  have hpairwise := htiles.pairwise
  obtain ⟨other, hother, hedge⟩ := h.edge offset (by omega) hne
  have hother' := htiles.start_le_stop other hother
  rw [htokens] at hother hpairwise
  rcases List.mem_cons.1 hother with rfl | hother
  · omega
  · have := (List.pairwise_cons.1 hpairwise).1 other hother
    omega

/-- Behind a token the rest of the text takes blanks as well. -/
theorem step (h : scan.TakesBlanks blanks) (hstep : Step scan (token, after))
    (hkind : token.kind ≠ .endOfInput) : after.TakesBlanks blanks := by
  have htiles := tiles_tokens scan
  have htokens : scan.tokens = token :: after.tokens := by rw [tokens_of_step hstep, if_neg hkind]
  obtain ⟨gap, text, -, -, -, -, hcursor⟩ := hstep.exists_text hkind
  have hstart := htiles.offset_le token (by simp [htokens])
  have hstop := htiles.start_le_stop token (by simp [htokens])
  refine ⟨h.spacing, fun offset hoffset hne => ?_, fun other hother => ?_⟩
  · obtain ⟨other, hother, hedge⟩ := h.edge offset (by omega) hne
    rw [htokens] at hother
    rcases List.mem_cons.1 hother with rfl | hother
    · omega
    · exact ⟨other, hother, hedge⟩
  · exact h.spelled other (by rw [htokens]; exact List.mem_cons_of_mem _ hother)

end TakesBlanks

/-! ### Lexemes -/

/-- What is left of a scan, with more blanks in it. -/
def spacedRest (blanks : ℕ → List Char) (scan : Scan) : List Char :=
  Text.spacedBehind blanks scan.cursor.offset scan.rest

variable {gap : List Char} {c : Char} {cs : List Char}

/-- The blanks in front of a lexeme, with more blanks among them. -/
def spacedGap (blanks : ℕ → List Char) (scan : Scan) (gap : List Char) : List Char :=
  Text.spacedBehind blanks scan.cursor.offset gap

/-- With more blanks, a lexeme stands behind blanks, and blanks stand behind it. -/
theorem TakesBlanks.spacedRest_of_lexeme (h : scan.TakesBlanks blanks)
    (hrest : scan.rest = gap ++ c :: cs) (hgap : ∀ d ∈ gap, isBlank d = true)
    (hc : isBlank c = false)
    (hline : '\n' ∈ gap → scan.afterNewline = true ∨ leadsToPipe false (c :: cs) = true) :
    scan.spacedRest blanks = scan.spacedGap blanks gap ++
      ((Lexeme.scan scan.opening c cs).text ++
        (blanks (scan.behind gap c cs).cursor.offset ++
          (scan.behind gap c cs).spacedRest blanks)) := by
  have hstep := Step.lexeme hrest hgap hc hline
  have hinner := h.inner hstep (Lexeme.kind_scan_ne scan.opening c cs).2
  have hoffset : (scan.behind gap c cs).cursor.offset = scan.cursor.offset + byteLength gap +
      byteLength (Lexeme.scan scan.opening c cs).text := by
    simp [behind, emit]
  rw [spacedRest, hrest, Text.spacedBehind_append,
    ← Lexeme.text_append_rest_scan scan.opening c cs, Text.spacedBehind_append,
    Text.spacedBehind_of_inner (Lexeme.text_scan_ne_nil scan.opening c cs), spacedRest, hoffset,
    spacedGap, List.append_assoc]
  · rfl
  · intro other hstart hstop
    refine hinner other ?_ ?_
    · simpa [emit] using hstart
    · simpa [emit] using hstop

namespace TakesBlanks

/-- More blanks lead to no name past marks. -/
theorem leadsToName (hblanks : ∀ offset, ∀ c ∈ blanks offset, isSpacing c = true)
    {offset : ℕ} {cs : List Char}
    (h : Lexeme.leadsToName (Text.spacedBehind blanks offset cs) = true) :
    Lexeme.leadsToName cs = true := by
  induction cs generalizing offset with
  | nil => exact h
  | cons c cs ih =>
      rw [Text.spacedBehind, Lexeme.leadsToName, List.dropWhile_cons] at h
      rw [Lexeme.leadsToName, List.dropWhile_cons]
      split at h
      · rename_i hc
        rw [if_pos hc]
        cases hnext : blanks (offset + c.utf8Size) with
        | nil =>
            rw [hnext, List.nil_append] at h
            exact ih h
        | cons d others =>
            have hd := hblanks (offset + c.utf8Size) d (by simp [hnext])
            rw [hnext, List.cons_append] at h
            exact absurd ((Lexeme.replaces_of_spacing hd [] _).name h) (by decide)
      · rename_i hc
        rw [if_neg hc]
        exact h

/-- A name that begins with a flag letter is not cut there. -/
theorem hasCaseFlag (h : scan.TakesBlanks blanks)
    (hflag : Literal.hasCaseFlag (scan.spacedRest blanks) = true) :
    Literal.hasCaseFlag scan.rest = true := by
  have hhead := Lexeme.hasCaseFlag_eq_true hflag
  have hfirst : scan.rest.head? = some 'i' := by
    rw [← Text.head?_spacedBehind blanks scan.cursor.offset, ← spacedRest, ← hhead]
    rfl
  obtain ⟨cs, hrest⟩ := List.head?_eq_some_iff.1 hfirst
  rw [hrest]
  cases cs with
  | nil => rfl
  | cons d cs =>
      by_contra hnot
      have hd : Name.isPart d = true := by simpa [Literal.hasCaseFlag] using hnot
      have hrest : scan.rest = [] ++ 'i' :: d :: cs := hrest
      have hlexeme := h.spacedRest_of_lexeme hrest (by simp) (by decide) (by simp)
      have htext : (Lexeme.scan scan.opening 'i' (d :: cs)).text =
          'i' :: d :: cs.takeWhile Name.isPart := by
        rw [Lexeme.scan_of_isStart (by decide)]
        have hi : Name.isPart 'i' = true := by decide
        simp [Lexeme.scanName, hi, hd]
      rw [htext] at hlexeme
      rw [hlexeme] at hflag
      simp [spacedGap, Text.spacedBehind, Literal.hasCaseFlag, hd] at hflag

/-- **What is left with more blanks may stand in the place of what is left.** -/
theorem replaces (h : scan.TakesBlanks blanks) : Lexeme.Replaces scan.rest
    (blanks scan.cursor.offset ++ scan.spacedRest blanks) := by
  cases hfirst : blanks scan.cursor.offset with
  | cons c cs =>
      exact Lexeme.replaces_of_spacing (h.spacing scan.cursor.offset c (by simp [hfirst])) _ _
  | nil =>
      refine ⟨fun d hd => Or.inr ?_, fun hflag => h.hasCaseFlag hflag, fun hname => ?_⟩
      · simpa [spacedRest] using hd
      · exact leadsToName h.spacing hname

/-- With more blanks, a lexeme that is no comment is the same. -/
theorem scan_word (h : scan.TakesBlanks blanks) (hrest : scan.rest = gap ++ c :: cs)
    (hgap : ∀ d ∈ gap, isBlank d = true) (hc : isBlank c = false)
    (hline : '\n' ∈ gap → scan.afterNewline = true ∨ leadsToPipe false (c :: cs) = true)
    (hcomment : ¬Lexeme.BeginsComment c cs) :
    ∃ cs', scan.spacedRest blanks = scan.spacedGap blanks gap ++ c :: cs' ∧
      Lexeme.scan scan.opening c cs' = (Lexeme.scan scan.opening c cs).withRest
        (blanks (scan.behind gap c cs).cursor.offset ++
          (scan.behind gap c cs).spacedRest blanks) ∧
      leadsToPipe false (c :: cs') = leadsToPipe false (c :: cs) := by
  have hstep := Step.lexeme hrest hgap hc hline
  have hkind := (Lexeme.kind_scan_ne scan.opening c cs).2
  have hword := (Lexeme.breaks_scan scan.opening hcomment).isTrivia
  have hafter : (scan.behind gap c cs).TakesBlanks blanks := h.step hstep hkind
  have hwritten : (Lexeme.scan scan.opening c cs).kind.isWritten = true := by
    have hspelled := h.spelled _ hstep.mem_tokens
    change ∀ defect, (Lexeme.scan scan.opening c cs).kind ≠ .malformed defect at hspelled
    have hnewline := (Lexeme.kind_scan_ne scan.opening c cs).1
    change (Lexeme.scan scan.opening c cs).kind ≠ .endOfInput at hkind
    cases hlexeme : (Lexeme.scan scan.opening c cs).kind with
    | newline => exact absurd hlexeme hnewline
    | endOfInput => exact absurd hlexeme hkind
    | comment text =>
        rw [hlexeme] at hword
        contradiction
    | malformed defect => exact absurd hlexeme (hspelled defect)
    | _ => rfl
  have hscan := Lexeme.scan_replaced hwritten hafter.replaces
  have hspaced := h.spacedRest_of_lexeme hrest hgap hc hline
  rw [Lexeme.text_scan_eq_cons, List.cons_append] at hspaced
  refine ⟨_, hspaced, hscan, ?_⟩
  have hcomment' : ¬Lexeme.BeginsComment c ((Lexeme.scan scan.opening c cs).text.tail ++
      (blanks (scan.behind gap c cs).cursor.offset ++
        (scan.behind gap c cs).spacedRest blanks)) := by
    intro hbegins
    have htrivia := congrArg TokenKind.isTrivia (congrArg Lexeme.kind hscan)
    rw [Lexeme.scan_of_beginsComment scan.opening hbegins] at htrivia
    exact absurd (htrivia.trans hword) (by simp [Lexeme.scanComment, TokenKind.isTrivia])
  rw [Bool.eq_iff_iff]
  exact (Lexeme.leadsToPipe_of_not_beginsComment hcomment' hc).trans
    (Lexeme.leadsToPipe_of_not_beginsComment hcomment hc).symm

/-- With more blanks, a comment is the same but for the blanks at its end. -/
theorem spacedRest_of_comment (h : scan.TakesBlanks blanks) (hrest : scan.rest = gap ++ c :: cs)
    (hgap : ∀ d ∈ gap, isBlank d = true) (hc : isBlank c = false)
    (hline : '\n' ∈ gap → scan.afterNewline = true ∨ leadsToPipe false (c :: cs) = true)
    (hcomment : Lexeme.BeginsComment c cs) :
    ∃ cs', scan.spacedRest blanks = scan.spacedGap blanks gap ++ c :: cs' ∧
      Lexeme.BeginsComment c cs' ∧
      (c :: cs').dropWhile (· != '\n') = (scan.behind gap c cs).spacedRest blanks := by
  have hscan := Lexeme.scan_of_beginsComment scan.opening hcomment
  have htext := Lexeme.text_scan_eq_cons scan.opening c cs
  have hspaced := h.spacedRest_of_lexeme hrest hgap hc hline
  have hrest' : (scan.behind gap c cs).rest = (c :: cs).dropWhile (· != '\n') := by
    rw [behind_of_beginsComment scan gap hcomment, past_rest]
  have hline : (Lexeme.scan scan.opening c cs).text = Text.firstLine (c :: cs) := by
    rw [hscan]
    rfl
  rw [htext] at hspaced hline
  rw [List.cons_append] at hspaced
  refine ⟨_, hspaced, ?_, ?_⟩
  · rcases hcomment with rfl | ⟨rfl, hhead⟩
    · exact Or.inl rfl
    · refine Or.inr ⟨rfl, ?_⟩
      obtain ⟨cs, rfl⟩ := List.head?_eq_some_iff.1 hhead
      have htail := (List.cons.inj hline).2
      rw [htail]
      rfl
  · rw [← List.cons_append, hline, ← List.append_assoc]
    refine Text.IsRun.dropWhile_eq ⟨?_, ?_⟩
    · intro d hd
      rcases List.mem_append.1 hd with hd | hd
      · exact Text.forall_mem_takeWhile (c :: cs) d hd
      · have hspacing := h.spacing _ d hd
        simpa using ((Text.isSpacing_iff d).1 hspacing).1
    · rw [spacedRest, Text.head?_spacedBehind, hrest']
      exact (Text.isRun_takeWhile _ (c :: cs)).2

end TakesBlanks

/-- More blanks among blanks are blanks. -/
theorem isBlank_spacedGap (hblanks : ∀ offset, ∀ c ∈ blanks offset, isSpacing c = true)
    (hgap : ∀ d ∈ gap, isBlank d = true) : ∀ d ∈ scan.spacedGap blanks gap, isBlank d = true :=
  Text.forall_mem_spacedBehind
    (fun offset d hd => Text.isBlank_of_isSpacing (hblanks offset d hd)) hgap

/-- More blanks in a text do not change the line behind it. -/
theorem line_advance_spacedGap (hblanks : ∀ offset, ∀ c ∈ blanks offset, isSpacing c = true)
    (scan : Scan) {place place' : Text.Cursor} (h : place.line = place'.line) (gap : List Char) :
    (place.advance gap).line = (place'.advance (scan.spacedGap blanks gap)).line := by
  rw [Text.Cursor.line_advance, Text.Cursor.line_advance, h, spacedGap,
    Text.count_spacedBehind hblanks]

/-- With more blanks, a line break stands behind spaces. -/
theorem spacedRest_of_newline {spaces breaks rest : List Char}
    (hrest : scan.rest = spaces ++ (breaks ++ rest)) : scan.spacedRest blanks =
      scan.spacedGap blanks spaces ++
        ((scan.past spaces (breaks ++ rest)).spacedGap blanks breaks ++
          ((scan.past spaces (breaks ++ rest)).emit .newline breaks rest).2.spacedRest blanks) := by
  rw [spacedRest, hrest, Text.spacedBehind_append, Text.spacedBehind_append, spacedGap, spacedGap,
    spacedRest]
  simp [emit]

/-! ### Runs -/

/-- Spacing is skipped. -/
theorem significant_of_spacing {spaces rest : List Char} (hrest : scan.rest = spaces ++ rest)
    (hspaces : ∀ c ∈ spaces, isSpacing c = true) :
    scan.significant = (scan.past spaces rest).significant := by
  refine (significant_past hrest (fun c hc => Text.isBlank_of_isSpacing (hspaces c hc)) ?_).symm
  intro hmem
  exact absurd (hspaces _ hmem) (by simp)

/-- Spacing ends no line. -/
theorem line_advance_of_spacing {spaces : List Char} (hspaces : ∀ c ∈ spaces, isSpacing c = true)
    (place : Text.Cursor) : (place.advance spaces).line = place.line := by
  have hnone : '\n' ∉ spaces := fun hmem => absurd (hspaces _ hmem) (by simp)
  rw [Text.Cursor.line_advance, List.count_eq_zero_of_not_mem hnone, Nat.add_zero]

/-- What comes next past a comment is what comes next behind it. -/
theorem leadsToPipe_of_behind {cs' : List Char} (hcomment : Lexeme.BeginsComment c cs)
    (hcomment' : Lexeme.BeginsComment c cs')
    (hbehind : (c :: cs').dropWhile (· != '\n') = (scan.behind gap c cs).spacedRest blanks)
    (hpipe : leadsToPipe false ((scan.behind gap c cs).spacedRest blanks) =
      leadsToPipe false (scan.behind gap c cs).rest) :
    leadsToPipe false (c :: cs') = leadsToPipe false (c :: cs) := by
  rw [Lexeme.leadsToPipe_of_beginsComment hcomment', hbehind, hpipe,
    Lexeme.leadsToPipe_of_beginsComment hcomment, behind_of_beginsComment scan gap hcomment,
    past_rest]

/-- What comes next is the same with more blanks. -/
theorem leadsToPipe_spacedRest (scan : Scan) : scan.TakesBlanks blanks →
    leadsToPipe false (scan.spacedRest blanks) = leadsToPipe false scan.rest := by
  refine tokens_induction (motive := fun scan _ => scan.TakesBlanks blanks →
    leadsToPipe false (scan.spacedRest blanks) = leadsToPipe false scan.rest) ?_ ?_ scan
  · intro scan token after hstep hend h
    have hblank := (hstep.isBlank_of_end hend).1
    have hspaced : ∀ c ∈ scan.spacedRest blanks, isBlank c = true :=
      Text.forall_mem_spacedBehind h.blank hblank
    rw [← List.append_nil (scan.spacedRest blanks), leadsToPipe_append hspaced,
      ← List.append_nil scan.rest, leadsToPipe_append hblank]
  · intro scan token after hstep hkind ih h
    have ih := ih (h.step hstep hkind)
    cases hnext : hstep with
    | finish _ _ => exact absurd rfl hkind
    | @newline spaces breaks rest hrest hspaces hbreaks hfirst hvisible hafter hpipe =>
        have hblank : ∀ c ∈ spaces, isBlank c = true :=
          fun c hc => Text.isBlank_of_isSpacing (hspaces c hc)
        have ih : leadsToPipe false (((scan.past spaces (breaks ++ rest)).emit .newline breaks
            rest).2.spacedRest blanks) = leadsToPipe false rest := ih
        rw [spacedRest_of_newline hrest,
          leadsToPipe_append (isBlank_spacedGap h.spacing hblank),
          leadsToPipe_append (isBlank_spacedGap h.spacing hbreaks), ih, hrest,
          leadsToPipe_append hblank, leadsToPipe_append hbreaks]
    | @lexeme gap c cs hrest hgap hc hline =>
        change leadsToPipe false ((scan.behind gap c cs).spacedRest blanks) =
          leadsToPipe false (scan.behind gap c cs).rest at ih
        rw [hrest, leadsToPipe_append hgap]
        by_cases hcomment : Lexeme.BeginsComment c cs
        · obtain ⟨cs', hspaced, hcomment', hbehind⟩ :=
            h.spacedRest_of_comment hrest hgap hc hline hcomment
          rw [hspaced, leadsToPipe_append (isBlank_spacedGap h.spacing hgap),
            leadsToPipe_of_behind hcomment hcomment' hbehind ih]
        · obtain ⟨cs', hspaced, -, hpipe⟩ := h.scan_word hrest hgap hc hline hcomment
          rw [hspaced, leadsToPipe_append (isBlank_spacedGap h.spacing hgap), hpipe]

/-- The scan of the text that is left with more blanks in it, at another place. -/
def spacedAt (blanks : ℕ → List Char) (scan : Scan) (place : Text.Cursor) : Scan :=
  { scan with rest := scan.spacedRest blanks, cursor := place }

/-- With more blanks, the tokens that are no comments begin with one that agrees, and go on behind
it at a place on the same line. -/
def SpacedAlike (blanks : ℕ → List Char) (scan : Scan) (place : Text.Cursor)
    (next : Token × Scan) : Prop :=
  ∃ token place', (scan.spacedAt blanks place).significant =
      token :: (next.2.spacedAt blanks place').significant ∧
    next.1.SameLine token ∧ next.2.cursor.line = place'.line

variable {place : Text.Cursor}

/-- A line break takes the blanks at its end. -/
theorem TakesBlanks.spacedAlike_newline (h : scan.TakesBlanks blanks)
    (hplace : scan.cursor.line = place.line) {spaces breaks rest : List Char}
    (hrest : scan.rest = spaces ++ (breaks ++ rest)) (hspaces : ∀ c ∈ spaces, isSpacing c = true)
    (hbreaks : ∀ c ∈ breaks, isBlank c = true) (hfirst : breaks.head? = some '\n')
    (hvisible : ∀ c ∈ rest.head?, isBlank c = false) (hafter : scan.afterNewline = false)
    (hpipe : leadsToPipe false rest = false) :
    scan.SpacedAlike blanks place
      ((scan.past spaces (breaks ++ rest)).emit .newline breaks rest) := by
  have hstep := Step.newline hrest hspaces hbreaks hfirst hvisible hafter hpipe
  have hnext := h.step hstep (by simp)
  have hrest' : (scan.spacedAt blanks place).rest = _ := spacedRest_of_newline hrest
  have hspaces' : ∀ c ∈ scan.spacedGap blanks spaces, isSpacing c = true :=
    Text.forall_mem_spacedBehind h.spacing hspaces
  have hstep' := Step.newline hrest' hspaces' (isBlank_spacedGap h.spacing hbreaks)
    ((Text.head?_spacedBehind _ _ _).trans hfirst) (by rwa [spacedRest, Text.head?_spacedBehind])
    hafter ((leadsToPipe_spacedRest _ hnext).trans hpipe)
  exact ⟨_, _, significant_of_step hstep' (by simp [emit]) rfl,
    ⟨rfl, line_advance_spacedGap h.spacing scan hplace spaces⟩,
    line_advance_spacedGap h.spacing _ (line_advance_spacedGap h.spacing scan hplace spaces) breaks⟩

/-- A lexeme that is no comment is the same, and the blanks behind it are skipped. -/
theorem TakesBlanks.spacedAlike_word (h : scan.TakesBlanks blanks)
    (hplace : scan.cursor.line = place.line) (hrest : scan.rest = gap ++ c :: cs)
    (hgap : ∀ d ∈ gap, isBlank d = true) (hc : isBlank c = false)
    (hline : '\n' ∈ gap → scan.afterNewline = true ∨ leadsToPipe false (c :: cs) = true)
    (hcomment : ¬Lexeme.BeginsComment c cs) :
    scan.SpacedAlike blanks place
      ((scan.past gap (c :: cs)).emit (Lexeme.scan scan.opening c cs).kind
        (Lexeme.scan scan.opening c cs).text (Lexeme.scan scan.opening c cs).rest) := by
  obtain ⟨cs', hspaced, hscan, hpipe⟩ := h.scan_word hrest hgap hc hline hcomment
  have hline' : '\n' ∈ scan.spacedGap blanks gap →
      scan.afterNewline = true ∨ leadsToPipe false (c :: cs') = true := by
    rw [spacedGap, Text.newline_mem_spacedBehind h.spacing, hpipe]
    exact hline
  have hstep : Step (scan.spacedAt blanks place) _ :=
    .lexeme hspaced (isBlank_spacedGap h.spacing hgap) hc hline'
  have hopening : (scan.spacedAt blanks place).opening = scan.opening := rfl
  rw [hopening, hscan] at hstep
  have hsignificant := significant_of_step hstep (Lexeme.kind_scan_ne scan.opening c cs).2
    (Lexeme.breaks_scan scan.opening hcomment).isTrivia
  have hgapline := line_advance_spacedGap h.spacing scan hplace gap
  have hword := line_advance_eq hgapline (Lexeme.scan scan.opening c cs).text
  generalize hnext : Scan.emit _ _ _ _ = next at hstep hsignificant
  have hrest' : next.2.rest = blanks (scan.behind gap c cs).cursor.offset ++
      (scan.behind gap c cs).spacedRest blanks := by
    rw [← hnext]
    rfl
  rw [significant_of_spacing hrest' (h.spacing _)] at hsignificant
  subst hnext
  exact ⟨_, _, hsignificant, ⟨rfl, hgapline⟩,
    hword.trans (line_advance_of_spacing (h.spacing _) _).symm⟩

/-- Where a comment stands, the tokens with more blanks go on. -/
theorem TakesBlanks.significant_spacedAt_of_comment (h : scan.TakesBlanks blanks)
    (hplace : scan.cursor.line = place.line) (hrest : scan.rest = gap ++ c :: cs)
    (hgap : ∀ d ∈ gap, isBlank d = true) (hc : isBlank c = false)
    (hline : '\n' ∈ gap → scan.afterNewline = true ∨ leadsToPipe false (c :: cs) = true)
    (hcomment : Lexeme.BeginsComment c cs) :
    ∃ place', (scan.spacedAt blanks place).significant =
        ((scan.behind gap c cs).spacedAt blanks place').significant ∧
      (scan.behind gap c cs).cursor.line = place'.line := by
  obtain ⟨cs', hspaced, hcomment', hbehind⟩ :=
    h.spacedRest_of_comment hrest hgap hc hline hcomment
  have hafter : (scan.behind gap c cs).TakesBlanks blanks :=
    h.step (Step.lexeme hrest hgap hc hline) (Lexeme.kind_scan_ne scan.opening c cs).2
  have hpipe := leadsToPipe_of_behind hcomment hcomment' hbehind (leadsToPipe_spacedRest _ hafter)
  have hline' : '\n' ∈ scan.spacedGap blanks gap →
      scan.afterNewline = true ∨ leadsToPipe false (c :: cs') = true := by
    rw [spacedGap, Text.newline_mem_spacedBehind h.spacing, hpipe]
    exact hline
  have hstep : Step (scan.spacedAt blanks place) _ :=
    .lexeme hspaced (isBlank_spacedGap h.spacing hgap) hc hline'
  have htrivia : (Lexeme.scan scan.opening c cs').kind.isTrivia = true := by
    rw [Lexeme.scan_of_beginsComment scan.opening hcomment']
    rfl
  have hspaced' := behind_of_beginsComment (scan.spacedAt blanks place)
    (scan.spacedGap blanks gap) hcomment'
  refine ⟨((scan.spacedAt blanks place).behind (scan.spacedGap blanks gap) c cs').cursor, ?_, ?_⟩
  · rw [significant_of_comment hstep htrivia]
    change ((scan.spacedAt blanks place).behind (scan.spacedGap blanks gap) c cs').significant = _
    congr 1
    rw [hspaced', hbehind, behind_of_beginsComment scan gap hcomment]
    rfl
  · have hline : scan.cursor.line = scan.cursor.line := rfl
    rw [line_behind_of_beginsComment hline hcomment]
    have hline' : (scan.spacedAt blanks place).cursor.line = place.line := rfl
    rw [line_behind_of_beginsComment hline' hcomment']
    exact line_advance_spacedGap h.spacing scan hplace gap

/-- **The tokens that are no comments stay** with more blanks. -/
theorem forall₂_spacedAt (scan : Scan) : scan.TakesBlanks blanks → ∀ place,
    scan.cursor.line = place.line →
      List.Forall₂ Token.SameLine scan.significant (scan.spacedAt blanks place).significant := by
  refine tokens_induction (motive := fun scan _ => scan.TakesBlanks blanks → ∀ place,
    scan.cursor.line = place.line → List.Forall₂ Token.SameLine scan.significant
      (scan.spacedAt blanks place).significant) ?_ ?_ scan
  · intro scan token after hstep hend h place hplace
    obtain ⟨hgap, hline, hspan⟩ := hstep.isBlank_of_end hend
    have hgap' : ∀ c ∈ (scan.spacedAt blanks place).rest, isBlank c = true :=
      Text.forall_mem_spacedBehind h.blank hgap
    have hline' : '\n' ∈ (scan.spacedAt blanks place).rest → scan.afterNewline = true :=
      fun hmem => hline ((Text.newline_mem_spacedBehind h.spacing _ _).1 hmem)
    rw [significant_of_end hstep hend, significant_of_end (.finish hgap' hline') rfl]
    refine .cons ⟨hend.symm, ?_⟩ .nil
    rw [hspan]
    exact line_advance_spacedGap h.spacing scan hplace scan.rest
  · intro scan token after hstep hkind ih h place hplace
    have ih := ih (h.step hstep hkind)
    have hcons {next : Token × Scan} (hnext : next = (token, after))
        (hsignificant : scan.significant = token :: after.significant)
        (halike : scan.SpacedAlike blanks place next) :
        List.Forall₂ Token.SameLine scan.significant
          (scan.spacedAt blanks place).significant := by
      subst hnext
      obtain ⟨token', place', hspaced, htoken, hplace'⟩ := halike
      rw [hsignificant, hspaced]
      exact .cons htoken (ih place' hplace')
    cases hnext : hstep with
    | finish _ _ => exact absurd rfl hkind
    | newline hrest hspaces hbreaks hfirst hvisible hafter hpipe =>
        exact hcons rfl (significant_of_step hstep hkind rfl)
          (h.spacedAlike_newline hplace hrest hspaces hbreaks hfirst hvisible hafter hpipe)
    | @lexeme gap c cs hrest hgap hc hline =>
        by_cases hcomment : Lexeme.BeginsComment c cs
        · have htrivia : (Lexeme.scan scan.opening c cs).kind.isTrivia = true := by
            rw [Lexeme.scan_of_beginsComment scan.opening hcomment]
            rfl
          obtain ⟨place', hspaced, hplace'⟩ :=
            h.significant_spacedAt_of_comment hplace hrest hgap hc hline hcomment
          rw [hspaced, significant_of_comment hstep htrivia]
          exact ih place' hplace'
        · exact hcons rfl (significant_of_step hstep hkind
            (Lexeme.breaks_scan scan.opening hcomment).isTrivia)
            (h.spacedAlike_word hplace hrest hgap hc hline hcomment)

end Scan

namespace Token

/-- **The tokens of a text that are no comments stay** where more blanks are put at the ends of
tokens, and so do their lines, if no token is a defect. -/
theorem forall₂_spaced {source : String} {blanks : ℕ → List Char}
    (hspelled : ∀ token ∈ ofSource source, ∀ defect, token.kind ≠ .malformed defect)
    (hblanks : ∀ offset, ∀ c ∈ blanks offset, isSpacing c = true)
    (hedge : ∀ offset, blanks offset ≠ [] →
      ∃ token ∈ ofSource source, offset = token.span.start ∨ offset = token.span.stop) :
    List.Forall₂ SameLine (significant source) (significant (Text.spaced blanks source)) := by
  have htakes : (Scan.ofSource source).TakesBlanks blanks :=
    ⟨hblanks, fun offset _ hne => hedge offset hne, hspelled⟩
  have hrest : (Scan.ofSource (Text.spaced blanks source)).rest =
      blanks 0 ++ (Scan.ofSource source).spacedRest blanks := String.toList_ofList
  have hplace := Scan.line_advance_of_spacing (hblanks 0) Text.Cursor.origin
  have htokens := Scan.forall₂_spacedAt _ htakes _ hplace.symm
  have hspaced := Scan.significant_of_spacing hrest (hblanks 0)
  change significant (Text.spaced blanks source) = _ at hspaced
  rw [hspaced]
  exact htokens

end Token

end GrammarCatalog
