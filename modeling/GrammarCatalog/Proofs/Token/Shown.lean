/-
**Lines with something on them.**

A token that ends no statement is on its line with something visible, its first character.  So is
the token behind it, whatever it is: line feeds are passed in front of a bar alone, and a bar is
visible too.  Only a token behind the end of a statement may be on a blank line.

Main definitions:

* `GrammarCatalog.Token.IsShown` — a token stands in a text, on a line with something visible on it;
* `GrammarCatalog.Scan.IsMarked` — **the invariant**: a scan behind a token that ends no statement.

Main results:

* `GrammarCatalog.Lexeme.newline_notMem_text_scan` — lexemes are on one line;
* `GrammarCatalog.Scan.Step.isShown`, `GrammarCatalog.Scan.Step.isMarked`,
  `GrammarCatalog.Scan.Step.isShown_of_isMarked` — what steps keep of the invariant, and give of
  their tokens;
* `GrammarCatalog.Token.isShown_of_mem`, `GrammarCatalog.Token.isShown_of_behind` — **tokens on
  lines with something on them**.
-/

import GrammarCatalog.Proofs.Text.Places
import GrammarCatalog.Proofs.Token.Faithful
import GrammarCatalog.Proofs.Token.LineBreaks

set_option relaxedAutoImplicit false
set_option autoImplicit false

namespace GrammarCatalog

open Text (firstLine isBlank lastLine)

/-! ### Lexemes on one line -/

namespace Text

/-- What holds no line feed goes on a line. -/
theorem lastLine_append {text : List Char} (h : '\n' ∉ text) (before : List Char) :
    lastLine (before ++ text) = lastLine before ++ text := by
  have hreverse : ∀ c ∈ text.reverse, (c != '\n') = true := by
    intro c hc
    have hne : c ≠ '\n' := by
      rintro rfl
      exact h (List.mem_reverse.1 hc)
    simpa using hne
  rw [lastLine, List.reverse_append, firstLine, List.takeWhile_append_of_pos hreverse,
    List.reverse_append, List.reverse_reverse]
  rfl

end Text

namespace Lexeme

/-- A lexeme is on one line. -/
theorem newline_notMem_text_scan {c : Char} (hc : isBlank c = false) (opening : Bool)
    (cs : List Char) : '\n' ∉ (scan opening c cs).text := by
  have hpart {line : List Char} (h : '\n' ∉ line) : '\n' ∉ (scan opening c line).text := by
    intro hmem
    have hcons : '\n' ∈ c :: line :=
      text_append_rest_scan opening c line ▸ List.mem_append_left _ hmem
    rcases List.mem_cons.1 hcons with rfl | hmem
    · contradiction
    · exact h hmem
  by_cases h : '\n' ∈ cs
  · obtain ⟨line, more, rfl, hline⟩ := List.eq_append_cons_of_mem h
    rw [scan_append_newline]
    exact hpart hline
  · exact hpart h

/-- No lexeme ends a statement. -/
theorem endsStatement_scan (opening : Bool) (c : Char) (cs : List Char) :
    (scan opening c cs).kind.endsStatement = false := by
  obtain ⟨hnewline, hend⟩ := kind_scan_ne opening c cs
  cases hkind : (scan opening c cs).kind with
  | newline => exact absurd hkind hnewline
  | endOfInput => exact absurd hkind hend
  | _ => rfl

end Lexeme

/-! ### Tokens on lines -/

/-- A token stands in a text, on a line with something visible on it. -/
def Token.IsShown (source : List Char) (token : Token) : Prop :=
  ∃ before text after, before ++ (text ++ after) = source ∧
    token.span = (Text.Cursor.origin.advance before).spanOf text ∧
    ∃ c ∈ lastLine before ++ firstLine (text ++ after), isBlank c = false

namespace Scan

/-- **The invariant** of a scan behind a token that ends no statement: something visible stands on
the line that it is on, or a bar comes next. -/
def IsMarked (source : List Char) (scan : Scan) : Prop :=
  ∃ before, before ++ scan.rest = source ∧ scan.cursor = Text.Cursor.origin.advance before ∧
    scan.afterNewline = false ∧
    ((∃ c ∈ lastLine before, isBlank c = false) ∨ leadsToPipe false scan.rest = true)

variable {source : List Char} {scan after : Scan} {token : Token}

theorem IsMarked.standsIn (h : scan.IsMarked source) : scan.StandsIn source := by
  obtain ⟨before, hsource, hcursor, -, -⟩ := h
  exact ⟨before, hsource, hcursor⟩

/-- What is visible on a line is so still behind a gap without a line feed. -/
theorem visible_append {before gap : List Char} (hgap : '\n' ∉ gap)
    (h : ∃ c ∈ lastLine before, isBlank c = false) :
    ∃ c ∈ lastLine (before ++ gap), isBlank c = false := by
  obtain ⟨c, hmem, hc⟩ := h
  refine ⟨c, ?_, hc⟩
  rw [Text.lastLine_append hgap]
  exact List.mem_append_left _ hmem

/-- A visible character begins its line, or goes on with it. -/
theorem mem_firstLine_cons {c : Char} (hc : isBlank c = false) (cs : List Char) :
    c ∈ firstLine (c :: cs) := by
  have hne : c ≠ '\n' := by
    rintro rfl
    contradiction
  simp [firstLine, hne]

/-- A lexeme is on its line with its first character. -/
theorem isShown_lexeme {before gap : List Char} {c : Char} {cs : List Char}
    (hsource : before ++ (gap ++ c :: cs) = source) (hc : isBlank c = false) (opening : Bool)
    {token : Token} (hspan : token.span =
      (Text.Cursor.origin.advance (before ++ gap)).spanOf (Lexeme.scan opening c cs).text) :
    token.IsShown source := by
  refine ⟨before ++ gap, _, (Lexeme.scan opening c cs).rest, ?_, hspan, c, ?_, hc⟩
  · rw [Lexeme.text_append_rest_scan, List.append_assoc, hsource]
  · rw [Lexeme.text_append_rest_scan]
    exact List.mem_append_right _ (mem_firstLine_cons hc cs)

/-- A token that ends no statement is on its line with something visible. -/
theorem Step.isShown (h : Step scan (token, after)) (hscan : scan.StandsIn source)
    (hkind : token.kind.endsStatement = false) : token.IsShown source := by
  obtain ⟨before, hsource, hcursor⟩ := hscan
  cases h with
  | finish _ _ => contradiction
  | newline _ _ _ _ _ _ _ => contradiction
  | @lexeme gap c cs hrest _ hc _ =>
      rw [hrest] at hsource
      refine isShown_lexeme hsource hc scan.opening ?_
      rw [Text.Cursor.advance_append, ← hcursor]
      rfl

/-- Behind a token that ends no statement, a scan is marked. -/
theorem Step.isMarked (h : Step scan (token, after)) (hscan : scan.StandsIn source)
    (hkind : token.kind.endsStatement = false) (htrivia : token.kind.isTrivia = false) :
    after.IsMarked source := by
  obtain ⟨before, hsource, hcursor⟩ := hscan
  cases h with
  | finish _ _ => contradiction
  | newline _ _ _ _ _ _ _ => contradiction
  | @lexeme gap c cs hrest _ hc _ =>
      refine ⟨before ++ (gap ++ (Lexeme.scan scan.opening c cs).text), ?_, ?_, ?_, Or.inl ?_⟩
      · rw [← hsource, hrest, ← Lexeme.text_append_rest_scan scan.opening c cs]
        simp
      · rw [Text.Cursor.advance_append, ← hcursor, Text.Cursor.advance_append]
        rfl
      · change newlineAfter scan.afterNewline (Lexeme.scan scan.opening c cs).kind = false
        change (Lexeme.scan scan.opening c cs).kind.endsStatement = false at hkind
        change (Lexeme.scan scan.opening c cs).kind.isTrivia = false at htrivia
        cases hlexeme : (Lexeme.scan scan.opening c cs).kind with
        | newline => simp [hlexeme, TokenKind.endsStatement] at hkind
        | comment _ => simp [hlexeme, TokenKind.isTrivia] at htrivia
        | _ => rfl
      · refine ⟨c, ?_, hc⟩
        rw [← List.append_assoc,
          Text.lastLine_append (Lexeme.newline_notMem_text_scan hc scan.opening cs)]
        exact List.mem_append_right _ (List.mem_of_head? (Lexeme.head?_text_scan ..))

/-- A comment changes nothing. -/
theorem Step.isMarked_of_comment (h : Step scan (token, after)) (hscan : scan.IsMarked source)
    (htrivia : token.kind.isTrivia = true) : after.IsMarked source := by
  obtain ⟨before, hsource, hcursor, hafter, hvisible⟩ := hscan
  cases h with
  | finish _ _ => contradiction
  | newline _ _ _ _ _ _ _ => contradiction
  | @lexeme gap c cs hrest hgap hc hline =>
      have hcomment : Lexeme.BeginsComment c cs := by
        by_contra hnot
        have hbreaks := (Lexeme.breaks_scan scan.opening hnot).isTrivia
        exact absurd (htrivia.symm.trans hbreaks) (by decide)
      have hscan := Lexeme.scan_of_beginsComment scan.opening hcomment
      have hnewline : newlineAfter scan.afterNewline (Lexeme.scanComment (c :: cs)).kind = false :=
        hafter
      rw [hscan]
      refine ⟨before ++ (gap ++ (Lexeme.scanComment (c :: cs)).text), ?_, ?_, hnewline, ?_⟩
      · rw [← hsource, hrest, List.append_assoc, List.append_assoc]
        exact congrArg (fun cs => before ++ (gap ++ cs))
          (Lexeme.text_append_rest_scanComment (c :: cs))
      · rw [Text.Cursor.advance_append, ← hcursor, Text.Cursor.advance_append]
        rfl
      -- what comes next is the same in front of the gap, in front of the comment and behind it
      · have hpipe : leadsToPipe false (Lexeme.scanComment (c :: cs)).rest =
            leadsToPipe false (c :: cs) := (Lexeme.leadsToPipe_of_beginsComment hcomment).symm
        rw [hrest, leadsToPipe_append hgap] at hvisible
        by_cases hmem : '\n' ∈ gap
        · right
          refine hpipe.trans ((hline hmem).resolve_left ?_)
          simp [hafter]
        · refine hvisible.imp (fun hvisible => ?_) fun hvisible => hpipe.trans hvisible
          refine visible_append ?_ hvisible
          intro hnewline
          rcases List.mem_append.1 hnewline with hnewline | hnewline
          · exact hmem hnewline
          · exact Text.newline_notMem_firstLine (c :: cs) hnewline

/-- A token behind one that ends no statement is on a line with something visible. -/
theorem Step.isShown_of_isMarked (h : Step scan (token, after)) (hscan : scan.IsMarked source) :
    token.IsShown source := by
  have hstands := hscan.standsIn
  obtain ⟨before, hsource, hcursor, hafter, hvisible⟩ := hscan
  cases h with
  | finish hgap hline =>
      have hpipe : leadsToPipe false scan.rest = false := by
        rw [← List.append_nil scan.rest, leadsToPipe_append hgap]
        rfl
      have hmem : '\n' ∉ scan.rest := by
        intro hmem
        rw [hline hmem] at hafter
        contradiction
      refine ⟨before ++ scan.rest, [], [], ?_, ?_, ?_⟩
      · rw [List.append_nil, List.append_nil, hsource]
      · rw [Text.Cursor.advance_append, ← hcursor]
      · have hvisible := hvisible.resolve_right (by simp [hpipe])
        simpa [firstLine] using visible_append hmem hvisible
  | @newline spaces breaks rest hrest hspaces hbreaks _ _ _ hpipe =>
      have hpipe' : leadsToPipe false scan.rest = false := by
        rw [hrest, leadsToPipe_append fun c hc => Text.isBlank_of_isSpacing (hspaces c hc),
          leadsToPipe_append hbreaks, hpipe]
      have hmem : '\n' ∉ spaces := by
        intro hmem
        exact absurd (hspaces _ hmem) (by simp)
      refine ⟨before ++ spaces, breaks, rest, ?_, ?_, ?_⟩
      · rw [← hsource, hrest, List.append_assoc]
      · rw [Text.Cursor.advance_append, ← hcursor]
        rfl
      · have hvisible := hvisible.resolve_right (by simp [hpipe'])
        obtain ⟨c, hmem, hc⟩ := visible_append hmem hvisible
        exact ⟨c, List.mem_append_left _ hmem, hc⟩
  | @lexeme gap c cs hrest hgap hc hline =>
      exact (Step.lexeme hrest hgap hc hline).isShown hstands
        (Lexeme.endsStatement_scan scan.opening c cs)

/-! ### Runs -/

/-- Along the significant tokens, the one behind a token that ends no statement is on a line with
something visible, and so is the first one of a marked scan. -/
theorem isChain_isShown (scan : Scan) (hscan : scan.StandsIn source) :
    (scan.IsMarked source → ∀ token ∈ scan.significant.head?, token.IsShown source) ∧
      scan.significant.IsChain fun last token =>
        last.kind.endsStatement = false → token.IsShown source := by
  refine tokens_induction (motive := fun scan _ => scan.StandsIn source →
    (scan.IsMarked source → ∀ token ∈ scan.significant.head?, token.IsShown source) ∧
      scan.significant.IsChain fun last token =>
        last.kind.endsStatement = false → token.IsShown source) ?_ ?_ scan hscan
  · intro scan token after hstep hend _
    rw [significant_of_end hstep hend]
    refine ⟨fun hmarked => ?_, List.isChain_singleton _⟩
    simpa using hstep.isShown_of_isMarked hmarked
  · intro scan token after hstep hend ih hscan
    obtain ⟨hfirst, hchain⟩ := ih (hscan.step hstep).2
    cases htrivia : token.kind.isTrivia with
    | true =>
        rw [significant_of_comment hstep htrivia]
        exact ⟨fun hmarked => hfirst (hstep.isMarked_of_comment hmarked htrivia), hchain⟩
    | false =>
        rw [significant_of_step hstep hend htrivia]
        refine ⟨fun hmarked => ?_, List.isChain_cons.2 ⟨fun next hnext hkind => ?_, hchain⟩⟩
        · simpa using hstep.isShown_of_isMarked hmarked
        · exact hfirst (hstep.isMarked hscan hkind htrivia) next hnext

end Scan

namespace Token

/-- **A token that ends no statement** is on a line with something visible on it. -/
theorem isShown_of_mem (source : String) : ∀ token ∈ ofSource source,
    token.kind.endsStatement = false → token.IsShown source.toList := by
  refine Scan.forall_mem_tokens ?_ (Scan.standsIn_ofSource source)
  intro scan token after hscan hstep
  exact ⟨fun hkind => hstep.isShown hscan hkind, (hscan.step hstep).2⟩

/-- **The token behind one that ends no statement** is on a line with something visible on it. -/
theorem isShown_of_behind {source : String} {before after : List Token} {last token : Token}
    (h : significant source = before ++ (last :: token :: after))
    (hlast : last.kind.endsStatement = false) : token.IsShown source.toList := by
  have hchain : (significant source).IsChain _ :=
    (Scan.isChain_isShown _ (Scan.standsIn_ofSource source)).2
  rw [h, List.isChain_append_cons_cons] at hchain
  exact hchain.2.1 hlast

end Token

end GrammarCatalog
