/-
**Positions of tokens.**

Lines and columns say where in a text a token begins: behind how many line feeds, and behind how
many characters on its line.  They also tell the tokens from each other: a character leads to a
later column or to a later line, and every token but the end of the text has a character.  So a
position is that of one token at most, and an error that gives one points at a single token.

Main definitions:

* `GrammarCatalog.Text.Cursor.position`, `GrammarCatalog.Span.position` — lines and columns in the
  order of reading;
* `GrammarCatalog.Scan.reached` — the scans that a text is read in, one after the other;
* `GrammarCatalog.Span.BeginsIn` — **where a span begins in a text**.

Main results:

* `GrammarCatalog.Text.Cursor.position_advance_lt` — characters lead to later positions;
* `GrammarCatalog.Scan.Step.position_lt` — a step leads past the position of its token;
* `GrammarCatalog.Token.pairwise_position_significant` — **positions ascend along the tokens of a
  text**;
* `GrammarCatalog.Token.beginsIn_of_mem_take` — **lines and columns count** line feeds and
  characters, within 32 bits.
-/

import Mathlib
import GrammarCatalog.Proofs.Text.Places
import GrammarCatalog.Proofs.Token.Steps

set_option relaxedAutoImplicit false
set_option autoImplicit false

namespace GrammarCatalog

/-! ### Places -/

namespace Text.Cursor

/-- Line and column of a place, in the order of reading. -/
def position (cursor : Cursor) : ℕ ×ₗ ℕ := toLex (cursor.line, cursor.column)

theorem position_step_lt (cursor : Cursor) (c : Char) :
    cursor.position < (cursor.step c).position := by
  rw [position, position, Prod.Lex.toLex_lt_toLex, step]
  split
  · exact Or.inl (Nat.lt_succ_self _)
  · exact Or.inr ⟨rfl, Nat.lt_succ_self _⟩

theorem position_advance_le (cursor : Cursor) (cs : List Char) :
    cursor.position ≤ (cursor.advance cs).position := by
  induction cs generalizing cursor with
  | nil => rfl
  | cons c cs ih => exact (cursor.position_step_lt c).le.trans (ih _)

/-- Characters lead to later positions. -/
theorem position_advance_lt (cursor : Cursor) {cs : List Char} (h : cs ≠ []) :
    cursor.position < (cursor.advance cs).position := by
  obtain ⟨c, cs, rfl⟩ := List.exists_cons_of_ne_nil h
  exact (cursor.position_step_lt c).trans_le (position_advance_le _ cs)

end Text.Cursor

/-- Line and column of the start of a span, in the order of reading. -/
def Span.position (span : Span) : ℕ ×ₗ ℕ := toLex (span.line, span.column)

@[simp] theorem Text.Cursor.position_spanOf (cursor : Text.Cursor) (text : List Char) :
    (cursor.spanOf text).position = cursor.position := rfl

/-! ### Tokens -/

namespace Scan

variable {scan after : Scan} {token : Token}

/-- A step leads to a token that is not before the place of the scan. -/
theorem Step.position_le (h : Step scan (token, after)) :
    scan.cursor.position ≤ token.span.position := by
  obtain ⟨gap, text, -, -, hspan, -⟩ := h.divides
  rw [hspan, Text.Cursor.position_spanOf]
  exact scan.cursor.position_advance_le gap

/-- **A step leads past the position of its token**, unless this is the end of the text. -/
theorem Step.position_lt (h : Step scan (token, after)) (hkind : token.kind ≠ .endOfInput) :
    token.span.position < after.cursor.position := by
  cases h with
  | finish _ _ => exact absurd rfl hkind
  | @newline spaces breaks rest _ _ _ hfirst _ _ _ =>
      have hne : breaks ≠ [] := fun heq => by simp [heq] at hfirst
      exact Text.Cursor.position_advance_lt _ hne
  | @lexeme gap c cs _ _ _ _ =>
      exact Text.Cursor.position_advance_lt _ (Lexeme.text_scan_ne_nil scan.opening c cs)

/-- Positions ascend along the tokens from here to the end of the text. -/
theorem pairwise_position_tokens (scan : Scan) :
    (∀ token ∈ scan.tokens, scan.cursor.position ≤ token.span.position) ∧
      scan.tokens.Pairwise fun first second => first.span.position < second.span.position := by
  refine tokens_induction (motive := fun scan tokens =>
    (∀ token ∈ tokens, scan.cursor.position ≤ token.span.position) ∧
      tokens.Pairwise fun first second => first.span.position < second.span.position) ?_ ?_ scan
  · intro scan token after hstep _
    exact ⟨by simpa using hstep.position_le, List.pairwise_singleton _ _⟩
  · rintro scan token after hstep hkind ⟨hle, hpairwise⟩
    have hlt : ∀ other ∈ after.tokens, token.span.position < other.span.position :=
      fun other hother => (hstep.position_lt hkind).trans_le (hle other hother)
    refine ⟨?_, List.pairwise_cons.2 ⟨hlt, hpairwise⟩⟩
    rw [List.forall_mem_cons]
    exact ⟨hstep.position_le, fun other hother => hstep.position_le.trans (hlt other hother).le⟩

end Scan

/-- **Positions ascend along the tokens of a text.** -/
theorem Token.pairwise_position_significant (source : String) :
    (significant source).Pairwise fun first second =>
      first.span.position < second.span.position :=
  (Scan.pairwise_position_tokens (Scan.ofSource source)).2.filter _

/-- At the position of a token stands no other token. -/
theorem Token.position_ne_of_significant_eq {source : String} {before after : List Token}
    {token : Token} (h : significant source = before ++ token :: after) :
    ∀ other ∈ before ++ after, other.span.position ≠ token.span.position := by
  have hpairwise := pairwise_position_significant source
  rw [h, List.pairwise_append, List.pairwise_cons] at hpairwise
  obtain ⟨-, ⟨hafter, -⟩, hbefore⟩ := hpairwise
  intro other hother
  rcases List.mem_append.1 hother with hother | hother
  · exact (hbefore other hother token List.mem_cons_self).ne
  · exact (hafter other hother).ne'

/-! ### Where tokens begin -/

namespace Scan

/-- The scans that a text is read in, one after the other. -/
def reached (source : String) (count : ℕ) : Scan :=
  (fun scan : Scan => scan.next.2)^[count] (ofSource source)

theorem standsIn_reached (source : String) (count : ℕ) :
    (reached source count).StandsIn source.toList := by
  induction count with
  | zero => exact standsIn_ofSource source
  | succ count ih =>
      rw [reached, Function.iterate_succ_apply']
      exact (ih.step (step_next _)).2

/-- What a step keeps of the scan, and gives of its token, holds of as many tokens as asked for. -/
theorem forall_mem_take {keeps : Scan → Prop} {gives : Token → Prop}
    (h : ∀ scan token after, keeps scan → Step scan (token, after) → gives token ∧ keeps after)
    {scan : Scan} (hscan : keeps scan) (count : ℕ) : ∀ token ∈ scan.take count, gives token := by
  induction count generalizing scan with
  | zero => simp [take]
  | succ count ih =>
      obtain ⟨htoken, hafter⟩ := h scan _ _ hscan (step_next scan)
      exact List.forall_mem_cons.2 ⟨htoken, ih hafter⟩

end Scan

/-- **Where a span begins in a text**: the line counts the line feeds before its start, and the
column the characters between the start and the last line feed before it. -/
def Span.BeginsIn (span : Span) (source : List Char) : Prop :=
  ∃ earlier ahead behind, source = earlier ++ (ahead ++ behind) ∧
    span.start = Text.byteLength (earlier ++ ahead) ∧
    (earlier = [] ∨ earlier.getLast? = some '\n') ∧ '\n' ∉ ahead ∧
    span.line = 1 + (earlier ++ ahead).count '\n' ∧ span.column = 1 + ahead.length

namespace Token

theorem StandsIn.beginsIn {source : List Char} {token : Token} (h : token.StandsIn source) :
    token.span.BeginsIn source := by
  obtain ⟨before, text, after, rfl, hspan⟩ := h
  obtain ⟨earlier, hbefore, hearlier⟩ := Text.exists_append_lastLine before
  refine ⟨earlier, Text.lastLine before, text ++ after, ?_, ?_, hearlier,
    Text.newline_notMem_lastLine before, ?_, ?_⟩
  · rw [← List.append_assoc, ← List.append_assoc, ← hbefore, List.append_assoc]
  · rw [← hbefore, hspan]
    simp [Text.Cursor.spanOf, Text.Cursor.origin]
  · rw [← hbefore, hspan]
    exact Text.Cursor.line_advance _ _
  · rw [hspan]
    exact Text.Cursor.column_advance_origin before

/-- **Lines and columns count** the line feeds before a token and the characters before it on its
line, for as many tokens as are read.  The scanner counts from the beginning of the text, one
character after the other, and its counters stay within 32 bits if the text is short enough. -/
theorem beginsIn_of_mem_take {source : String}
    (hlength : Text.byteLength source.toList < 2 ^ 32 - 1) (count : ℕ) :
    (∀ token ∈ (Scan.ofSource source).take count, token.span.BeginsIn source.toList ∧
      token.span.line < 2 ^ 32 ∧ token.span.column < 2 ^ 32) ∧
    (∃ passed, passed <+: source.toList ∧
      (Scan.reached source count).cursor = Text.Cursor.origin.advance passed) ∧
    ∀ passed, passed <+: source.toList → (Text.Cursor.origin.advance passed).line < 2 ^ 32 ∧
      (Text.Cursor.origin.advance passed).column < 2 ^ 32 := by
  have hcounters : ∀ passed, passed <+: source.toList →
      (Text.Cursor.origin.advance passed).line < 2 ^ 32 ∧
        (Text.Cursor.origin.advance passed).column < 2 ^ 32 :=
    fun passed hpassed => Text.Cursor.counters_lt_of_prefix hlength hpassed
  have hstands : ∀ token ∈ (Scan.ofSource source).take count, token.StandsIn source.toList :=
    Scan.forall_mem_take (fun _ _ _ hscan hstep => hscan.step hstep)
      (Scan.standsIn_ofSource source) count
  refine ⟨fun token htoken => ⟨(hstands token htoken).beginsIn, ?_⟩, ?_, hcounters⟩
  · obtain ⟨before, text, after, hsource, hspan⟩ := hstands token htoken
    rw [hspan]
    exact hcounters before ⟨text ++ after, hsource⟩
  · obtain ⟨passed, hsource, hcursor⟩ := Scan.standsIn_reached source count
    exact ⟨passed, ⟨_, hsource⟩, hcursor⟩

/-- The column counts characters, also where they have several bytes. -/
theorem beginsIn_multibyte :
    Text.byteLength "a:\n \"ж\"b".toList < 2 ^ 32 - 1 ∧
      (⟨.rule "b", ⟨8, 9, 2, 5⟩⟩ : Token) ∈ (Scan.ofSource "a:\n \"ж\"b").take 5 ∧
      (⟨8, 9, 2, 5⟩ : Span).BeginsIn "a:\n \"ж\"b".toList := by
  have hlength : Text.byteLength "a:\n \"ж\"b".toList < 2 ^ 32 - 1 := by decide
  have htake : (Scan.ofSource "a:\n \"ж\"b").take 5 = [⟨.rule "a", ⟨0, 1, 1, 1⟩⟩,
      ⟨.punctuation .colon, ⟨1, 2, 1, 2⟩⟩, ⟨.newline, ⟨2, 4, 1, 3⟩⟩,
      ⟨.string "ж" false, ⟨4, 8, 2, 2⟩⟩, ⟨.rule "b", ⟨8, 9, 2, 5⟩⟩] := by cbv
  have hmem : (⟨.rule "b", ⟨8, 9, 2, 5⟩⟩ : Token) ∈ (Scan.ofSource "a:\n \"ж\"b").take 5 := by
    simp [htake]
  exact ⟨hlength, hmem, ((beginsIn_of_mem_take hlength 5).1 _ hmem).1⟩

end Token

end GrammarCatalog
