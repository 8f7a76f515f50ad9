/-
**Tokens that stand alone.**

An outline has one line for each token, with the token as it is written.  Such a line is a grammar
text by itself: wherever the token was read, what is written of it has this token, with all that it
carries, and nothing behind it.  A marked name is read with its markers because a definition may
begin with it, and a flag belongs to its literal because the text ends there.

Ends of statements and of texts, comments, and stretches of text that are no token have no writing
of their own.  They are shown by a description, which is read as the words of the description.

Main results:

* `GrammarCatalog.Scan.kinds_tokens_of_lexeme` — the tokens of a text that is one lexeme;
* `GrammarCatalog.TokenKind.Rescans.kinds_ofSource` — what is read back is read alone as itself;
* `GrammarCatalog.TokenKind.kinds_ofSource_ne` — a description is read as something else;
* `GrammarCatalog.Token.kinds_ofSource_text_iff` — **what is written of a token is read as this
  token**, just when it is no description.
-/

import GrammarCatalog.Proofs.Token.Replaced

set_option relaxedAutoImplicit false
set_option autoImplicit false

namespace GrammarCatalog

/-! ### Texts of one lexeme -/

namespace Scan

variable {scan : Scan}

/-- Where nothing is left, the end of the text is the only token. -/
theorem kinds_tokens_of_end (hrest : scan.rest = []) :
    scan.tokens.map Token.kind = [.endOfInput] := by
  have hstep : Step scan _ := .finish (by simp [hrest]) (by simp [hrest])
  rw [tokens_of_step hstep]
  rfl

/-- A lexeme that leaves nothing is the only token but the end of the text. -/
theorem kinds_tokens_of_lexeme {c : Char} {cs : List Char} (hrest : scan.rest = c :: cs)
    (hc : Text.isBlank c = false) (hend : (Lexeme.scan scan.opening c cs).rest = []) :
    scan.tokens.map Token.kind = [(Lexeme.scan scan.opening c cs).kind, .endOfInput] := by
  have hbare : scan.rest = [] ++ c :: cs := hrest
  have hstep := Step.lexeme hbare (by simp) hc (by simp)
  have hkind := (Lexeme.kind_scan_ne scan.opening c cs).2
  have htokens := (tokens_of_step hstep).trans (if_neg hkind)
  rw [htokens, List.map_cons, kinds_tokens_of_end hend]
  rfl

end Scan

/-! ### Writings and descriptions -/

namespace TokenKind

variable {kind : TokenKind}

/-- What is read back begins with something visible. -/
theorem Rescans.isBlank_eq_false (h : kind.Rescans) :
    ∀ c ∈ kind.text.toList.head?, Text.isBlank c = false := by
  obtain ⟨c, cs, htext, hscan⟩ := h
  rw [htext]
  intro d hd
  obtain rfl : c = d := by simpa using hd
  by_contra hblank
  rw [Lexeme.scan_of_isBlank (Bool.not_eq_false _ ▸ hblank)] at hscan
  obtain rfl : kind = .malformed (.unexpectedCharacter c) := (congrArg Lexeme.kind hscan).symm
  -- the description of what is no token begins with a letter
  have hdescription : "error".toList = c :: cs := htext
  obtain rfl : 'e' = c := by simpa using congrArg List.head? hdescription
  contradiction

/-- What is read back is read alone as itself. -/
theorem Rescans.kinds_ofSource (h : kind.Rescans) :
    (Token.ofSource kind.text).map Token.kind = [kind, .endOfInput] := by
  have hvisible := h.isBlank_eq_false
  obtain ⟨c, cs, htext, hscan⟩ := h
  have hrest : (Scan.ofSource kind.text).rest = c :: cs := htext
  -- a definition may begin at the start of a text
  have hopening : (Scan.ofSource kind.text).opening = true := rfl
  have hkinds := Scan.kinds_tokens_of_lexeme hrest (hvisible c (by simp [htext]))
    (by rw [hopening, hscan])
  rwa [hopening, hscan] at hkinds

/-- A description is read as something else than what it describes. -/
theorem kinds_ofSource_ne (h : kind.isWritten = false) :
    (Token.ofSource kind.text).map Token.kind ≠ [kind, .endOfInput] := by
  have hline : (Token.ofSource "end of line").map Token.kind =
      [.rule "end", .rule "of", .rule "line", .endOfInput] := by cbv
  have hinput : (Token.ofSource "end of input").map Token.kind =
      [.rule "end", .rule "of", .rule "input", .endOfInput] := by cbv
  have hcomment : (Token.ofSource "comment").map Token.kind =
      [.rule "comment", .endOfInput] := by cbv
  have herror : (Token.ofSource "error").map Token.kind = [.rule "error", .endOfInput] := by cbv
  cases kind with
  | newline => simp [text, describe, hline]
  | endOfInput => simp [text, describe, hinput]
  | comment _ => simp [text, describe, hcomment]
  | malformed _ => simp [text, describe, herror]
  | _ => contradiction

end TokenKind

/-! ### The tokens of a text -/

namespace Token

/-- **What is written of a token is read as this token** and the end of the text, with the same
name, text, flags or value, just when it is no description. -/
theorem kinds_ofSource_text_iff {source : String} {token : Token} (h : token ∈ ofSource source) :
    (ofSource token.kind.text).map kind = [token.kind, .endOfInput] ↔
      token.kind.isWritten = true := by
  constructor
  · intro hkinds
    by_contra hdescribed
    exact TokenKind.kinds_ofSource_ne (Bool.eq_false_iff.2 hdescribed) hkinds
  · intro hwritten
    exact (rescans_of_mem h hwritten).kinds_ofSource

set_option maxRecDepth 4000 in
/-- Markers, an escaped slash with flags behind it, and a negative zero with leading zeros. -/
theorem kinds_ofSource_text_escaped :
    let name : Token := ⟨.rule "!?a", ⟨0, 3, 1, 1⟩⟩
    let zero : Token := ⟨.number 0, ⟨4, 7, 1, 5⟩⟩
    let pattern : Token := ⟨.regexp "\\/" "ix", ⟨9, 15, 1, 10⟩⟩
    (name ∈ ofSource "!?a.-00: /\\//ix" ∧ zero ∈ ofSource "!?a.-00: /\\//ix" ∧
        pattern ∈ ofSource "!?a.-00: /\\//ix") ∧
      zero.kind.text = "0" ∧ pattern.kind.text = "/\\//ix" ∧
      (ofSource name.kind.text).map kind = [.rule "!?a", .endOfInput] ∧
      (ofSource zero.kind.text).map kind = [.number 0, .endOfInput] ∧
      (ofSource pattern.kind.text).map kind = [.regexp "\\/" "ix", .endOfInput] := by
  intro name zero pattern
  have htokens : ofSource "!?a.-00: /\\//ix" = [name, ⟨.punctuation .dot, ⟨3, 4, 1, 4⟩⟩, zero,
      ⟨.punctuation .colon, ⟨7, 8, 1, 8⟩⟩, pattern, ⟨.endOfInput, ⟨15, 15, 1, 16⟩⟩] := by cbv
  have hname : name ∈ ofSource "!?a.-00: /\\//ix" := by simp [htokens]
  have hzero : zero ∈ ofSource "!?a.-00: /\\//ix" := by simp [htokens]
  have hpattern : pattern ∈ ofSource "!?a.-00: /\\//ix" := by simp [htokens]
  exact ⟨⟨hname, hzero, hpattern⟩, by decide, by decide, (kinds_ofSource_text_iff hname).2 rfl,
    (kinds_ofSource_text_iff hzero).2 rfl, (kinds_ofSource_text_iff hpattern).2 rfl⟩

end Token

end GrammarCatalog
