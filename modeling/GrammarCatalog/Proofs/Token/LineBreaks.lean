/-
**Where statements end.**

Between two tokens that stand on different lines there is one line break, unless the second is a
bar; and there is none between tokens of one line.  Blank lines, indentation and lines with nothing
but a comment make no difference.

The scanner decides at a line feed whether a bar comes next.  What it looks at is not changed by
passing blanks or a comment, so the decision still holds when it comes to the next token.

Main definitions:

* `GrammarCatalog.LineBreaks` — the line breaks in front of a token are those that have to be there;
* `GrammarCatalog.Scan.Pending` — **the invariant**: what is known of the text since the last token
  that is neither a line break nor a comment.

Main results:

* `GrammarCatalog.Scan.leadsToPipe_append`, `GrammarCatalog.Scan.leadsToPipe_dropWhile` — what comes
  next is the same behind blanks and behind a comment;
* `GrammarCatalog.Token.lineBreaks_significant` — **the line breaks of a text**.
-/

import Mathlib.Data.List.Chain
import GrammarCatalog.Proofs.Token.Lexemes
import GrammarCatalog.Proofs.Token.Steps

set_option relaxedAutoImplicit false
set_option autoImplicit false

namespace GrammarCatalog

namespace Scan

open Text (isBlank isSpacing)

/-! ### The next token behind blanks and comments -/

theorem leadsToPipe_cons_of_blank {c : Char} (hc : isBlank c = true) (cs : List Char) :
    leadsToPipe false (c :: cs) = leadsToPipe false cs := by
  have hpipe : c ≠ '|' := by rintro rfl; exact absurd hc (by decide)
  have hhash : c ≠ '#' := by rintro rfl; exact absurd hc (by decide)
  have hslash : c ≠ '/' := by rintro rfl; exact absurd hc (by decide)
  rw [leadsToPipe.eq_6] <;> simp_all

/-- Blanks do not change what comes next. -/
theorem leadsToPipe_append {gap : List Char} (hgap : ∀ c ∈ gap, isBlank c = true)
    (rest : List Char) : leadsToPipe false (gap ++ rest) = leadsToPipe false rest := by
  induction gap with
  | nil => rfl
  | cons c gap ih =>
      rw [List.cons_append, leadsToPipe_cons_of_blank (hgap c List.mem_cons_self)]
      exact ih fun d hd => hgap d (List.mem_cons_of_mem _ hd)

/-- A comment ends where its line does. -/
theorem leadsToPipe_dropWhile (cs : List Char) :
    leadsToPipe true cs = leadsToPipe false (cs.dropWhile (· != '\n')) := by
  induction cs with
  | nil => rfl
  | cons c cs ih =>
      by_cases hc : c = '\n'
      · subst hc
        rw [List.dropWhile_cons_of_neg (by decide), leadsToPipe_cons_of_blank (by decide)]
        rfl
      · have hne : (c != '\n') = true := by simpa using hc
        rw [List.dropWhile_cons, if_pos hne, ← ih, leadsToPipe, hne]

end Scan

namespace Lexeme

open Scan (leadsToPipe)

theorem leadsToPipe_of_beginsComment {c : Char} {cs : List Char} (h : BeginsComment c cs) :
    leadsToPipe false (c :: cs) = leadsToPipe false ((c :: cs).dropWhile (· != '\n')) := by
  rw [← Scan.leadsToPipe_dropWhile]
  rcases h with rfl | ⟨rfl, hhead⟩
  · rfl
  · cases cs with
    | nil => simp at hhead
    | cons d cs =>
        obtain rfl : d = '/' := by simpa using hhead
        rfl

theorem leadsToPipe_of_not_beginsComment {c : Char} {cs : List Char} (h : ¬BeginsComment c cs)
    (hc : Text.isBlank c = false) : leadsToPipe false (c :: cs) = true ↔ c = '|' := by
  simp only [BeginsComment, not_or, not_and] at h
  by_cases hpipe : c = '|'
  · subst hpipe
    simp [leadsToPipe]
  · rw [leadsToPipe.eq_6]
    · simp [hc, hpipe]
    · exact hpipe
    · exact h.1
    · rintro cs rfl rfl
      exact h.2 rfl rfl

end Lexeme

/-! ### Line breaks in front of a token -/

/-- The line breaks in front of a token, behind a place where the last token ended, are those that
have to be there: none unless a line feed stands between and the token is no bar, and otherwise one,
at the first line feed. -/
def LineBreaks (source : List Char) (stop : Nat) (newlines : List Token) (token : Token) : Prop :=
  ∃ text, Text.slice? stop token.span.start source = some text ∧
    (newlines ≠ [] ↔ '\n' ∈ text ∧ token.kind ≠ .punctuation .pipe) ∧
    ∀ newline ∈ newlines, newlines = [newline] ∧
      newline.span.start = stop + Text.byteLength (Text.firstLine text)

namespace Text

theorem firstLine_append_of_mem {text : List Char} (h : '\n' ∈ text) (more : List Char) :
    firstLine (text ++ more) = firstLine text := by
  induction text with
  | nil => simp at h
  | cons c text ih =>
      by_cases hc : c = '\n'
      · subst hc
        rfl
      · have hmem : '\n' ∈ text := by simpa [Ne.symm hc] using h
        simpa [firstLine, hc] using ih hmem

theorem firstLine_append_of_notMem {text : List Char} (h : '\n' ∉ text) (more : List Char) :
    firstLine (text ++ '\n' :: more) = text := by
  unfold firstLine
  rw [List.takeWhile_append_of_pos]
  · simp
  · intro c hc
    have hne : c ≠ '\n' := by
      rintro rfl
      exact h hc
    simpa using hne

end Text

namespace Scan

open Text (isBlank isSpacing)

/-- **The invariant**: what is known of a scan that has come past some text since the place where
the last token ended that is neither a line break nor a comment, and past a line break, if there
was one. -/
structure Pending (source : List Char) (scan : Scan) (before text : List Char)
    (newline : Option Token) : Prop where
  /-- The scan goes on behind the text. -/
  place : before ++ (text ++ scan.rest) = source
  /-- The scan is at the end of the text. -/
  offset : scan.cursor.offset = Text.byteLength before + Text.byteLength text
  /-- The scan remembers whether there was a line break. -/
  flag : scan.afterNewline = newline.isSome
  /-- A line feed without a line break means that a bar comes next. -/
  joined : newline = none → '\n' ∈ text → leadsToPipe false scan.rest = true
  /-- Behind a line break, which stands at the first line feed, no bar comes next. -/
  broken : ∀ token ∈ newline, leadsToPipe false scan.rest = false ∧ '\n' ∈ text ∧
    token.span.start = Text.byteLength before + Text.byteLength (Text.firstLine text)

variable {source before text : List Char} {scan : Scan} {newline : Option Token}

/-- A gap that a step passes keeps the invariant. -/
theorem Pending.past {gap rest : List Char} (h : Pending source scan before text newline)
    (hrest : scan.rest = gap ++ rest) (hgap : ∀ c ∈ gap, isBlank c = true)
    (hline : '\n' ∈ gap → scan.afterNewline = true ∨ leadsToPipe false rest = true) :
    Pending source (scan.past gap rest) before (text ++ gap) newline where
  place := by rw [← h.place, hrest, List.append_assoc, past_rest]
  offset := by simp [h.offset, Nat.add_assoc]
  flag := h.flag
  joined hnone hmem := by
    rw [past_rest]
    rcases List.mem_append.1 hmem with hmem | hmem
    · rw [← leadsToPipe_append hgap, ← hrest]
      exact h.joined hnone hmem
    · refine (hline hmem).resolve_left ?_
      simp [h.flag, hnone]
  broken token htoken := by
    obtain ⟨hpipe, hmem, hstart⟩ := h.broken token htoken
    rw [past_rest, ← leadsToPipe_append hgap, ← hrest, Text.firstLine_append_of_mem hmem]
    exact ⟨hpipe, List.mem_append_left _ hmem, hstart⟩

/-- A comment keeps the invariant. -/
theorem Pending.comment {c : Char} {cs : List Char}
    (h : Pending source scan before text newline) (hrest : scan.rest = c :: cs)
    (hcomment : Lexeme.BeginsComment c cs) :
    Pending source (scan.emit (Lexeme.scanComment (c :: cs)).kind
      (Lexeme.scanComment (c :: cs)).text (Lexeme.scanComment (c :: cs)).rest).2 before
        (text ++ (Lexeme.scanComment (c :: cs)).text) newline where
  place := by
    rw [← h.place, hrest, List.append_assoc]
    exact congrArg (fun cs => before ++ (text ++ cs)) (Lexeme.text_append_rest_scanComment _)
  offset := by simp [emit, h.offset, Nat.add_assoc]
  flag := h.flag
  joined hnone hmem := by
    have hnot : '\n' ∉ (Lexeme.scanComment (c :: cs)).text := Text.newline_notMem_firstLine _
    have hmem : '\n' ∈ text := (List.mem_append.1 hmem).resolve_right hnot
    have hpipe := h.joined hnone hmem
    rwa [hrest, Lexeme.leadsToPipe_of_beginsComment hcomment] at hpipe
  broken token htoken := by
    obtain ⟨hpipe, hmem, hstart⟩ := h.broken token htoken
    rw [hrest, Lexeme.leadsToPipe_of_beginsComment hcomment] at hpipe
    rw [Text.firstLine_append_of_mem hmem]
    exact ⟨hpipe, List.mem_append_left _ hmem, hstart⟩

/-- A line break is taken where the first line feed stands. -/
theorem Pending.lineFeed {breaks rest : List Char} (h : Pending source scan before text none)
    (hrest : scan.rest = breaks ++ rest) (hbreaks : ∀ c ∈ breaks, isBlank c = true)
    (hfirst : breaks.head? = some '\n') (hpipe : leadsToPipe false rest = false) :
    Pending source (scan.emit .newline breaks rest).2 before (text ++ breaks)
      (some (scan.emit .newline breaks rest).1) where
  place := by rw [← h.place, hrest, List.append_assoc]; rfl
  offset := by simp [emit, h.offset, Nat.add_assoc]
  flag := rfl
  joined hnone := by simp at hnone
  broken token htoken := by
    obtain rfl : (scan.emit .newline breaks rest).1 = token := by simpa using htoken
    have hnot : '\n' ∉ text := by
      intro hmem
      have hpipe' := h.joined rfl hmem
      rw [hrest, leadsToPipe_append hbreaks, hpipe] at hpipe'
      contradiction
    obtain ⟨breaks, rfl⟩ := List.head?_eq_some_iff.1 hfirst
    rw [Text.firstLine_append_of_notMem hnot]
    exact ⟨hpipe, by simp, h.offset⟩

/-- Behind any other lexeme nothing is pending. -/
theorem Pending.lexeme {c : Char} {cs : List Char} {lexeme : Lexeme}
    (h : Pending source scan before text newline) (hrest : scan.rest = c :: cs)
    (hlexeme : lexeme.Divides (c :: cs)) (hbreaks : lexeme.Breaks c) :
    Pending source (scan.emit lexeme.kind lexeme.text lexeme.rest).2
      (before ++ (text ++ lexeme.text)) [] none where
  place := by
    rw [← h.place, hrest, ← hlexeme.1]
    simp [emit]
  offset := by simp [emit, h.offset, Nat.add_assoc]
  flag := by
    obtain ⟨htrivia, hends, -⟩ := hbreaks
    revert htrivia hends
    cases hkind : lexeme.kind <;>
      simp [emit, newlineAfter, TokenKind.isTrivia, TokenKind.endsStatement]
  joined _ hmem := by simp at hmem
  broken token htoken := by simp at htoken

/-- In front of a token, the line breaks are those that have to be there. -/
theorem Pending.lineBreaks {token : Token} (h : Pending source scan before text newline)
    (hstart : token.span.start = scan.cursor.offset)
    (hkind : leadsToPipe false scan.rest = true ↔ token.kind = .punctuation .pipe) :
    LineBreaks source (Text.byteLength before) newline.toList token := by
  have hstop := hstart.trans h.offset
  refine ⟨text, Text.slice?_eq_some_iff.2 ⟨before, scan.rest, h.place, rfl, hstop.symm⟩, ?_, ?_⟩
  · cases newline with
    | none =>
        simp only [Option.toList_none, ne_eq, not_true, false_iff, not_and]
        intro hmem hne
        exact hne (hkind.1 (h.joined rfl hmem))
    | some newline =>
        obtain ⟨hpipe, hmem, -⟩ := h.broken newline rfl
        have hne : token.kind ≠ .punctuation .pipe := by
          intro heq
          rw [hkind.2 heq] at hpipe
          contradiction
        simp [hmem, hne]
  · intro other hother
    cases newline with
    | none => simp at hother
    | some newline =>
        obtain rfl : other = newline := by simpa using hother
        exact ⟨rfl, (h.broken other rfl).2.2⟩

/-! ### Runs -/

/-- Significant tokens with the line breaks that have to be there, behind a place where the last
token ended, and behind the line break that followed it, if there was one. -/
inductive Lined (source : List Char) : Nat → Option Token → List Token → Prop
  | last {stop : Nat} {newline : Option Token} {token : Token} (hkind : token.kind ≠ .newline)
      (hbreaks : LineBreaks source stop newline.toList token) :
      Lined source stop newline [token]
  | newline {stop : Nat} {token : Token} {tokens : List Token} (hkind : token.kind = .newline)
      (h : Lined source stop (some token) tokens) : Lined source stop none (token :: tokens)
  | token {stop : Nat} {newline : Option Token} {token : Token} {tokens : List Token}
      (hkind : token.kind ≠ .newline) (hbreaks : LineBreaks source stop newline.toList token)
      (h : Lined source token.span.stop none tokens) :
      Lined source stop newline (token :: tokens)

/-- The tokens of a scan have the line breaks that have to be there. -/
theorem lined_tokens (source : List Char) (scan : Scan) :
    ∀ before text newline, Pending source scan before text newline →
      Lined source (Text.byteLength before) newline
        (scan.tokens.filter fun token => !token.kind.isTrivia) := by
  refine tokens_induction (motive := fun scan tokens => ∀ before text newline,
    Pending source scan before text newline → Lined source (Text.byteLength before) newline
      (tokens.filter fun token => !token.kind.isTrivia)) ?_ ?_ scan
  · intro scan token after hstep hend before text newline hpending
    rw [List.filter_cons_of_pos (by simp [hend, TokenKind.isTrivia]), List.filter_nil]
    refine .last (by simp [hend]) ?_
    cases hstep with
    | finish hgap hline =>
        have hrest : scan.rest = scan.rest ++ [] := (List.append_nil _).symm
        have hpast := hpending.past hrest hgap fun hmem => Or.inl (hline hmem)
        exact hpast.lineBreaks rfl (by simp [leadsToPipe])
    | newline _ _ _ _ _ _ _ => cases hend
    | @lexeme gap c cs _ _ _ _ => exact absurd hend (Lexeme.kind_scan_ne scan.opening c cs).2
  · intro scan token after hstep hkind ih before text newline hpending
    cases hstep with
    | finish _ _ => exact absurd rfl hkind
    | @newline spaces breaks rest hrest hspaces hbreaks hfirst hnext hafter hpipe =>
        rw [List.filter_cons_of_pos rfl]
        have hflag := hpending.flag
        rw [hafter] at hflag
        obtain rfl : newline = none := by simpa using hflag
        have hpast := hpending.past hrest
          (fun c hc => Text.isBlank_of_isSpacing (hspaces c hc))
          fun hmem => absurd (hspaces _ hmem) (by simp)
        have hnext := hpast.lineFeed rfl hbreaks hfirst hpipe
        exact .newline rfl (ih _ _ _ hnext)
    | @lexeme gap c cs hrest hgap hc hline =>
        have hpast := hpending.past hrest hgap hline
        by_cases hcomment : Lexeme.BeginsComment c cs
        · have hscan := Lexeme.scan_of_beginsComment scan.opening hcomment
          rw [hscan] at ih ⊢
          rw [List.filter_cons_of_neg (by simp [Lexeme.scanComment, TokenKind.isTrivia])]
          exact ih _ _ _ (hpast.comment rfl hcomment)
        · have hbreaks := Lexeme.breaks_scan scan.opening hcomment
          rw [List.filter_cons_of_pos (by simpa using hbreaks.isTrivia)]
          have hpipe := (Lexeme.leadsToPipe_of_not_beginsComment hcomment hc).trans
            hbreaks.pipe_iff.symm
          have hpending' := hpast.lexeme rfl (Lexeme.divides_scan _ _ _) hbreaks
          have hstop := hpending'.offset
          refine .token (Lexeme.kind_scan_ne scan.opening c cs).1 (hpast.lineBreaks rfl hpipe) ?_
          have hnext := ih _ _ _ hpending'
          rwa [← Nat.add_zero (Text.byteLength _), ← Text.byteLength_nil, ← hstop] at hnext

theorem lined_significant (source : String) :
    Lined source.toList 0 none (Token.significant source) := by
  refine lined_tokens source.toList (ofSource source) [] [] none ⟨rfl, rfl, rfl, ?_, ?_⟩
  · intro _ hmem
    simp at hmem
  · intro token htoken
    simp at htoken

variable {stop : Nat} {tokens newlines after : List Token} {token : Token}

/-- Behind a line break stands neither another one nor a bar. -/
theorem Lined.isChain (h : Lined source stop newline tokens) :
    tokens.IsChain (fun first second => first.kind = .newline →
      second.kind ≠ .newline ∧ second.kind ≠ .punctuation .pipe) ∧
    (newline ≠ none → ∀ token ∈ tokens.head?,
      token.kind ≠ .newline ∧ token.kind ≠ .punctuation .pipe) := by
  have front {newline : Option Token} {stop : Nat} {token : Token}
      (hbreaks : LineBreaks source stop newline.toList token) (hsome : newline ≠ none) :
      token.kind ≠ .punctuation .pipe := by
    obtain ⟨text, -, hiff, -⟩ := hbreaks
    exact (hiff.1 (by simpa [Option.toList_eq_nil_iff] using hsome)).2
  induction h with
  | last hkind hbreaks =>
      refine ⟨List.isChain_singleton _, ?_⟩
      intro hsome token htoken
      obtain rfl : _ = token := by simpa using htoken
      exact ⟨hkind, front hbreaks hsome⟩
  | newline hkind h ih =>
      refine ⟨List.isChain_cons.2 ⟨fun token htoken _ => ih.2 (by simp) token htoken, ih.1⟩, ?_⟩
      intro hsome
      contradiction
  | token hkind hbreaks h ih =>
      refine ⟨List.isChain_cons.2 ⟨fun _ _ hnewline => absurd hnewline hkind, ih.1⟩, ?_⟩
      intro hsome token htoken
      obtain rfl : _ = token := by simpa using htoken
      exact ⟨hkind, front hbreaks hsome⟩

/-- In front of the first token that is no line break, the line breaks are those that have to be
there. -/
theorem Lined.lineBreaks_of_front (h : Lined source stop newline (newlines ++ token :: after))
    (hnewlines : ∀ other ∈ newlines, other.kind = .newline) (hkind : token.kind ≠ .newline) :
    LineBreaks source stop (newline.toList ++ newlines) token := by
  induction newlines generalizing newline with
  | nil =>
      rw [List.append_nil]
      cases h with
      | last _ hbreaks => exact hbreaks
      | newline hnewline _ => exact absurd hnewline hkind
      | token _ hbreaks _ => exact hbreaks
  | cons other newlines ih =>
      have hother : other.kind = .newline := hnewlines other List.mem_cons_self
      have hnewlines : ∀ other ∈ newlines, other.kind = .newline :=
        fun other hother => hnewlines other (List.mem_cons_of_mem _ hother)
      rw [List.cons_append] at h
      generalize htokens : newlines ++ token :: after = tokens at h
      cases h with
      | last hne _ => exact absurd hother hne
      | newline _ h =>
          subst htokens
          exact ih h hnewlines
      | token hne _ _ => exact absurd hother hne

theorem Lined.lineBreaks_of_split {before : List Token}
    (h : Lined source stop newline (before ++ (newlines ++ token :: after)))
    (hbefore : before = [] → newline = none)
    (hnewlines : ∀ other ∈ newlines, other.kind = .newline) (hkind : token.kind ≠ .newline)
    (hlast : ∀ last ∈ before.getLast?, last.kind ≠ .newline) :
    LineBreaks source (before.getLast?.elim stop fun last => last.span.stop) newlines token := by
  induction before generalizing stop newline with
  | nil =>
      rw [hbefore rfl] at h
      exact h.lineBreaks_of_front hnewlines hkind
  | cons first before ih =>
      have hlast' : ∀ last ∈ before.getLast?, last.kind ≠ .newline := by
        intro last hmem
        exact hlast last (by simp [List.getLast?_cons, Option.mem_def.1 hmem])
      rw [List.cons_append] at h
      generalize htokens : before ++ (newlines ++ token :: after) = tokens at h
      cases h with
      | last _ _ => simp at htokens
      | newline hnewline h =>
          subst htokens
          -- the last token before the line breaks is none, so others stand behind this one
          have hne : before ≠ [] := by
            rintro rfl
            exact hlast first rfl hnewline
          have hbreaks := ih h (fun heq => absurd heq hne) hlast'
          obtain ⟨last, hmem⟩ := Option.ne_none_iff_exists'.1 (List.getLast?_eq_none_iff.not.2 hne)
          simpa [List.getLast?_cons, hmem] using hbreaks
      | token _ _ h =>
          subst htokens
          have hbreaks := ih h (fun _ => rfl) hlast'
          cases hmem : before.getLast? with
          | none => simpa [List.getLast?_cons, hmem] using hbreaks
          | some last => simpa [List.getLast?_cons, hmem] using hbreaks

end Scan

/-- **The line breaks of a text.**  Behind a line break stands neither another one nor a bar.
Between two tokens with nothing but line breaks between them, or between the start of the text and
the first token, there is a line break exactly when a line feed stands there and the second token is
no bar; then there is one, at the first line feed. -/
theorem Token.lineBreaks_significant (source : String) :
    (significant source).IsChain (fun first second => first.kind = .newline →
      second.kind ≠ .newline ∧ second.kind ≠ .punctuation .pipe) ∧
    ∀ before newlines token after,
      significant source = before ++ (newlines ++ token :: after) →
      (∀ newline ∈ newlines, newline.kind = .newline) → token.kind ≠ .newline →
      (∀ last ∈ before.getLast?, last.kind ≠ .newline) →
      LineBreaks source.toList (before.getLast?.elim 0 fun last => last.span.stop) newlines
        token := by
  have hlined := Scan.lined_significant source
  refine ⟨hlined.isChain.1, ?_⟩
  intro before newlines token after htokens hnewlines hkind hlast
  rw [htokens] at hlined
  exact hlined.lineBreaks_of_split (fun _ => rfl) hnewlines hkind hlast

end GrammarCatalog
