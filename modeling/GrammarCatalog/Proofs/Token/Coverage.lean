/-
**What the tokens of a text cover.**

Reading loses nothing: between the tokens of a text there is nothing but blanks, and every token but
the last takes at least one character.  The last one is the end of the text, which takes none and
comes again and again when reading goes on.

Main definitions:

* `GrammarCatalog.Scan.Tiles` — **tokens tile a text**: gaps of blanks and the characters of the
  tokens, one after the other, make it up.

Main results:

* `GrammarCatalog.Scan.tiles_tokens` — the tokens of a text tile it;
* `GrammarCatalog.Scan.Tiles.isBlank_of_uncovered`, `GrammarCatalog.Scan.Tiles.pairwise`,
  `GrammarCatalog.Scan.Tiles.length_le` — what that says of characters, spans and numbers;
* `GrammarCatalog.Scan.take_length_add` — reading on behind the end gives the end;
* `GrammarCatalog.Token.ofSource_covers` — **tokens and blanks make up a text**.
-/

import GrammarCatalog.Proofs.Text.Places
import GrammarCatalog.Proofs.Token.Lexemes
import GrammarCatalog.Proofs.Token.Steps

set_option relaxedAutoImplicit false
set_option autoImplicit false

namespace GrammarCatalog

open Text (byteLength isBlank)

namespace Scan

variable {scan after : Scan} {token : Token}

/-! ### What a step takes -/

/-- A step to the end of a text passes what is left of it, which is blank. -/
theorem Step.eq_end (h : Step scan (token, after)) (hkind : token.kind = .endOfInput) :
    (∀ c ∈ scan.rest, isBlank c = true) ∧
      token = ⟨.endOfInput, (scan.cursor.advance scan.rest).spanOf []⟩ ∧
      after = scan.past scan.rest [] := by
  cases h with
  | finish hgap _ => exact ⟨hgap, rfl, rfl⟩
  | newline _ _ _ _ _ _ _ => cases hkind
  | @lexeme gap c cs _ _ _ _ => exact absurd hkind (Lexeme.kind_scan_ne scan.opening c cs).2

/-- Any other step passes blanks and takes something. -/
theorem Step.exists_text (h : Step scan (token, after)) (hkind : token.kind ≠ .endOfInput) :
    ∃ gap text, scan.rest = gap ++ (text ++ after.rest) ∧ (∀ c ∈ gap, isBlank c = true) ∧
      text ≠ [] ∧ token.span = (scan.cursor.advance gap).spanOf text ∧
      after.cursor.offset = token.span.stop := by
  cases h with
  | finish _ _ => exact absurd rfl hkind
  | @newline spaces breaks rest hrest hspaces _ hfirst _ _ _ =>
      have hne : breaks ≠ [] := fun heq => by simp [heq] at hfirst
      refine ⟨spaces, breaks, hrest, ?_, hne, rfl, rfl⟩
      intro c hc
      exact Text.isBlank_of_isSpacing (hspaces c hc)
  | @lexeme gap c cs hrest hgap _ _ =>
      refine ⟨gap, (Lexeme.scan scan.opening c cs).text, ?_, hgap, ?_, rfl, rfl⟩
      · rw [hrest]
        exact congrArg (gap ++ ·) (Lexeme.text_append_rest_scan scan.opening c cs).symm
      · exact Lexeme.text_scan_ne_nil scan.opening c cs

/-- At the end of a text, the end comes again. -/
theorem Step.again (h : Step scan (token, after)) (hkind : token.kind = .endOfInput) :
    Step after (token, after) := by
  obtain ⟨-, rfl, rfl⟩ := h.eq_end hkind
  exact .finish (by simp) (by simp)

/-! ### Tiles -/

/-- **Tokens tile a text** that begins at an offset: gaps of blanks and the characters of the
tokens, one after the other, make it up. -/
inductive Tiles : ℕ → List Char → List Token → Prop
  /-- Blanks are left, and the end of the text stands behind them. -/
  | last {offset : ℕ} {gap : List Char} {token : Token} (hgap : ∀ c ∈ gap, isBlank c = true)
      (hkind : token.kind = .endOfInput) (hstart : token.span.start = offset + byteLength gap)
      (hstop : token.span.stop = token.span.start) : Tiles offset gap [token]
  /-- A token takes something behind blanks, and others tile the rest. -/
  | token {offset : ℕ} {gap text rest : List Char} {token : Token} {tokens : List Token}
      (hgap : ∀ c ∈ gap, isBlank c = true) (htext : text ≠ []) (hkind : token.kind ≠ .endOfInput)
      (hstart : token.span.start = offset + byteLength gap)
      (hstop : token.span.stop = token.span.start + byteLength text)
      (h : Tiles token.span.stop rest tokens) :
      Tiles offset (gap ++ (text ++ rest)) (token :: tokens)

/-- The tokens of a text tile it. -/
theorem tiles_tokens (scan : Scan) : Tiles scan.cursor.offset scan.rest scan.tokens := by
  refine tokens_induction
    (motive := fun scan tokens => Tiles scan.cursor.offset scan.rest tokens) ?_ ?_ scan
  · intro scan token after hstep hkind
    obtain ⟨hgap, rfl, -⟩ := hstep.eq_end hkind
    exact .last hgap rfl (by simp [Text.Cursor.spanOf]) rfl
  · intro scan token after hstep hkind ih
    obtain ⟨gap, text, hrest, hgap, htext, hspan, hoffset⟩ := hstep.exists_text hkind
    rw [hoffset] at ih
    rw [hrest]
    refine .token hgap htext hkind ?_ ?_ ih
    · simp [hspan, Text.Cursor.spanOf]
    · simp [hspan, Text.Cursor.spanOf]

namespace Tiles

variable {offset : ℕ} {cs : List Char} {tokens : List Token}

/-- The last token is the end of the text, behind all of it, and no other token is the end or
covers nothing. -/
theorem exists_eq_concat (h : Tiles offset cs tokens) :
    ∃ front last, tokens = front ++ [last] ∧ last.kind = .endOfInput ∧
      last.span.start = offset + byteLength cs ∧ last.span.stop = last.span.start ∧
      ∀ token ∈ front, token.kind ≠ .endOfInput ∧ token.span.start < token.span.stop := by
  induction h with
  | last _ hkind hstart hstop => exact ⟨[], _, rfl, hkind, hstart, hstop, by simp⟩
  | @token offset gap text rest token tokens _ htext hkind hstart hstop _ ih =>
      obtain ⟨front, last, rfl, hlast, hend, hempty, hfront⟩ := ih
      have hpos : 0 < byteLength text :=
        Nat.pos_of_ne_zero (mt Text.byteLength_eq_zero_iff.1 htext)
      refine ⟨token :: front, last, rfl, hlast, ?_, hempty, ?_⟩
      · simp only [Text.byteLength_append]
        omega
      · refine List.forall_mem_cons.2 ⟨⟨hkind, ?_⟩, hfront⟩
        omega

/-- The tokens stand behind the offset. -/
theorem offset_le (h : Tiles offset cs tokens) : ∀ token ∈ tokens, offset ≤ token.span.start := by
  induction h with
  | last _ _ hstart _ =>
      intro other hother
      rw [List.mem_singleton.1 hother]
      omega
  | token _ _ _ hstart hstop _ ih =>
      intro other hother
      rcases List.mem_cons.1 hother with rfl | hother
      · omega
      · have := ih other hother
        omega

/-- The tokens follow each other. -/
theorem pairwise (h : Tiles offset cs tokens) :
    tokens.Pairwise fun earlier later => earlier.span.stop ≤ later.span.start := by
  induction h with
  | last _ _ _ _ => exact List.pairwise_singleton _ _
  | token _ _ _ _ _ h ih => exact List.pairwise_cons.2 ⟨h.offset_le, ih⟩

/-- There is at most one token more than there are characters. -/
theorem length_le (h : Tiles offset cs tokens) : tokens.length ≤ cs.length + 1 := by
  induction h with
  | last _ _ _ _ => simp
  | token _ htext _ _ _ _ ih =>
      have hpos := List.length_pos_iff.2 htext
      simp only [List.length_cons, List.length_append]
      omega

/-- A character that no token covers is blank. -/
theorem isBlank_of_uncovered (h : Tiles offset cs tokens) {before behind : List Char} {c : Char}
    (hcs : cs = before ++ c :: behind)
    (huncovered : ∀ token ∈ tokens, ¬(token.span.start ≤ offset + byteLength before ∧
      offset + byteLength before < token.span.stop)) : isBlank c = true := by
  induction h generalizing before with
  | last hgap _ _ _ => exact hgap c (by simp [hcs])
  | @token offset gap text rest token tokens hgap _ _ hstart hstop _ ih =>
      obtain ⟨hhere, hothers⟩ := List.forall_mem_cons.1 huncovered
      have hpos := c.utf8Size_pos
      rcases Text.append_eq_append_cons hcs with ⟨more, rfl⟩ | ⟨inner, rfl, hinner⟩
      -- in the gap
      · exact hgap c (by simp)
      rw [Text.byteLength_append] at hhere
      rcases Text.append_eq_append_cons hinner with ⟨more, rfl⟩ | ⟨outer, rfl, houter⟩
      -- in the token
      · simp only [Text.byteLength_append, Text.byteLength_cons] at hstop
        omega
      -- behind the token
      · refine ih houter ?_
        intro other hother
        have hplace : offset + byteLength (gap ++ (text ++ outer)) =
            token.span.stop + byteLength outer := by
          simp only [Text.byteLength_append]
          omega
        rw [← hplace]
        exact hothers other hother

end Tiles

/-! ### Reading on -/

/-- Behind the end of a text, the end comes as often as asked for. -/
theorem take_of_end (h : Step scan (token, scan)) (count : ℕ) :
    take count scan = List.replicate count token := by
  induction count with
  | zero => rfl
  | succ count ih =>
      have hnext : scan.next = (token, scan) := (step_next scan).unique h
      rw [take, hnext, ih, List.replicate_succ]

/-- **Reading on behind the last token** gives this token, as often as asked for. -/
theorem take_length_add (scan : Scan) :
    ∃ last, scan.tokens.getLast? = some last ∧
      ∀ count, take (scan.tokens.length + count) scan =
        scan.tokens ++ List.replicate count last := by
  refine tokens_induction (motive := fun scan tokens => ∃ last, tokens.getLast? = some last ∧
    ∀ count, take (tokens.length + count) scan = tokens ++ List.replicate count last) ?_ ?_ scan
  · intro scan token after hstep hkind
    refine ⟨token, rfl, fun count => ?_⟩
    have hnext : scan.next = (token, after) := (step_next scan).unique hstep
    rw [List.length_singleton, Nat.add_comm, take, hnext, take_of_end (hstep.again hkind)]
    rfl
  · rintro scan token after hstep - ⟨last, hlast, ih⟩
    refine ⟨last, by simp [List.getLast?_cons, hlast], fun count => ?_⟩
    have hnext : scan.next = (token, after) := (step_next scan).unique hstep
    rw [List.length_cons, Nat.add_right_comm, take, hnext, ih, List.cons_append]

end Scan

/-- **Tokens and blanks make up a text.**  The last token is the end of the text and empty, and no
other token is.  Every token covers a part of the text, behind the token before it, and what no
token covers is blank.  There is at most one token more than there are characters, and reading on
gives the end again and again. -/
theorem Token.ofSource_covers (source : String) :
    ∃ front last, ofSource source = front ++ [last] ∧
      (last.kind = .endOfInput ∧ last.span.start = byteLength source.toList ∧
        last.span.stop = byteLength source.toList) ∧
      (∀ token ∈ front, token.kind ≠ .endOfInput ∧ token.span.start < token.span.stop) ∧
      (∀ token ∈ ofSource source, ∃ text,
        Text.slice? token.span.start token.span.stop source.toList = some text) ∧
      ((ofSource source).Pairwise fun earlier later => earlier.span.stop ≤ later.span.start) ∧
      (∀ before c behind, source.toList = before ++ c :: behind →
        (∀ token ∈ ofSource source, ¬(token.span.start ≤ byteLength before ∧
          byteLength before < token.span.stop)) → isBlank c = true) ∧
      (ofSource source).length ≤ source.length + 1 ∧
      ∀ count, (Scan.ofSource source).take ((ofSource source).length + count) =
        ofSource source ++ List.replicate count last := by
  have htiles : Scan.Tiles 0 source.toList (ofSource source) :=
    Scan.tiles_tokens (Scan.ofSource source)
  obtain ⟨front, last, htokens, hlast, hstart, hstop, hfront⟩ := htiles.exists_eq_concat
  rw [Nat.zero_add] at hstart
  refine ⟨front, last, htokens, ⟨hlast, hstart, hstop.trans hstart⟩, hfront, ?_, htiles.pairwise,
    ?_, ?_, ?_⟩
  · intro token htoken
    obtain ⟨before, text, after, hsource, hspan⟩ := standsIn_of_mem htoken
    refine ⟨text, Text.slice?_eq_some_iff.2 ⟨before, after, hsource, ?_, ?_⟩⟩
    · simp [hspan, Text.Cursor.spanOf, Text.Cursor.origin]
    · simp [hspan, Text.Cursor.spanOf, Text.Cursor.origin]
  · intro before c behind hsource huncovered
    exact htiles.isBlank_of_uncovered hsource (by simpa using huncovered)
  · rw [← String.length_toList]
    exact htiles.length_le
  · obtain ⟨last', hlast', htake⟩ := Scan.take_length_add (Scan.ofSource source)
    have hconcat : (Scan.ofSource source).tokens = front ++ [last] := htokens
    obtain rfl : last = last' := by simpa [hconcat] using hlast'
    exact htake

end GrammarCatalog
