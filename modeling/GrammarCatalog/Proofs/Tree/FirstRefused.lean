/-
**The first token that does not fit.**

A parse error points at the first wrong token of a text.  The tokens before it could go on to a
sentence, because every parser keeps to its language; with it they cannot, because the parser would
do the same on whatever followed, and it accepts all sentences.  The position that the error gives
is that of this token alone.

The refusal because of nesting is left out: it comes as soon as a group or a list of arguments is
opened that cannot be completed, which may be behind the token that opens it.

Main definitions:

* `GrammarCatalog.MetaGrammar.Viable` — tokens that could go on to a sentence.

Main results:

* `GrammarCatalog.Parse.viable_of_refused`, `GrammarCatalog.Parse.not_viable_of_refused` — what
  comes before a refused token is viable, and is not with this token;
* `GrammarCatalog.Tree.rejected_at_first_wrong` — **an error points at the first wrong token**.
-/

import GrammarCatalog.Proofs.MetaGrammar.Beginnings
import GrammarCatalog.Proofs.MetaGrammar.Ends
import GrammarCatalog.Proofs.Token.Positions
import GrammarCatalog.Proofs.Tree.Refusals

set_option relaxedAutoImplicit false
set_option autoImplicit false

namespace GrammarCatalog

/-- The kinds could go on to a sentence. -/
def MetaGrammar.Viable (kinds : List TokenKind) : Prop := ∃ more, kinds ++ more ∈ sentence

open MetaGrammar (Viable)

/-! ### Refused tokens -/

namespace Parse

variable {length : ℕ} {s r : TokenStream}

/-- A stream that spells a sentence is accepted. -/
theorem exists_accepted_of_mem_sentence (length : ℕ)
    (h : s.toList.map Token.kind ∈ MetaGrammar.sentence) :
    s.Terminated ∧ ∃ tree r, grammar length s = .accepted tree r := by
  obtain ⟨front, hfront, back, ⟨kind, hkind, rfl⟩, heq⟩ := Language.mem_mul.1 h
  obtain ⟨taken, last, hlist, rfl, hlast⟩ := List.map_eq_append_iff.1 heq.symm
  obtain ⟨t, rfl, rfl⟩ := List.map_eq_singleton_iff.1 hlast
  have ht : t.kind = .endOfInput := by simpa using hkind
  have hs : s.Terminated := by
    refine TokenStream.terminated_of_toList_eq hlist ht fun u hu hend => ?_
    exact MetaGrammar.avoids_lines _ _ hfront (hend ▸ List.mem_map_of_mem hu)
  obtain rfl : s = TokenStream.prepend ⟨t, []⟩ taken :=
    TokenStream.toList_injective (by rw [hlist, TokenStream.toList_prepend]; rfl)
  obtain ⟨trees, hderives⟩ := Phrase.exists_derives_lines ⟨taken, rfl, hfront⟩
  exact ⟨hs, _, _, complete_grammar hs hderives ht⟩

/-- What comes before a refused token could go on to a sentence. -/
theorem viable_of_refused {reason : Refusal} {before : List Token} (hs : s.Terminated)
    (hrefused : grammar length s = .refused reason r) (hreason : reason ≠ .nestedTooDeeply)
    (hbefore : s = r.prepend before) : Viable (before.map Token.kind) := by
  obtain ⟨taken, more, htaken, hlines⟩ := (keepsTo_grammar length hs).begins hrefused hreason
  obtain rfl : taken = before := TokenStream.prepend_cancel (htaken.symm.trans hbefore)
  refine ⟨more ++ [.endOfInput], ?_⟩
  rw [← List.append_assoc]
  exact Language.append_mem_mul hlines ⟨.endOfInput, rfl, rfl⟩

/-- With a refused token, what comes before it cannot go on to a sentence. -/
theorem not_viable_of_refused {reason : Refusal} {before : List Token} (hs : s.Terminated)
    (hrefused : grammar length s = .refused reason r) (hbefore : s = r.prepend before) :
    ¬Viable (before.map Token.kind ++ [r.current.kind]) := by
  rintro ⟨more, hsentence⟩
  -- the same tokens, with others behind the refused one
  obtain ⟨ahead, rfl⟩ : ∃ ahead : List Token, ahead.map Token.kind = more :=
    ⟨more.map fun kind => ⟨kind, Span.origin⟩, by simp [Function.comp_def]⟩
  obtain ⟨other, hother⟩ : ∃ other : TokenStream, other = ⟨r.current, ahead⟩ := ⟨_, rfl⟩
  have hword : (other.prepend before).toList.map Token.kind ∈ MetaGrammar.sentence := by
    rw [List.append_assoc] at hsentence
    rw [TokenStream.toList_prepend, hother, List.map_append]
    exact hsentence
  obtain ⟨hterminated, tree, r', haccepted⟩ := exists_accepted_of_mem_sentence length hword
  have hresumes := (forward_grammar length).resumes hs (by rw [hrefused]; exact hbefore)
    (r := other) (by rw [hrefused, hother]; rfl) hterminated
  rw [haccepted, hrefused] at hresumes
  contradiction

end Parse

/-! ### Errors -/

namespace Tree

variable {source : String} {error : ParseError}

/-- An error is the refusal of a token, with its position. -/
theorem exists_refused_of_rejected (h : ofSource source = .error (.rejected error)) :
    ∃ reason r, Parse.grammar (Text.byteLength source.toList) (TokenStream.ofSource source) =
        .refused reason r ∧ error.message = reason.message ∧
      r.current.span.line = error.line ∧ r.current.span.column = error.column := by
  rw [ofSource_eq, ofTokens] at h
  cases hgrammar : Parse.grammar (Text.byteLength source.toList) (TokenStream.ofSource source) with
  | accepted tree r => simp [hgrammar] at h
  | refused reason r =>
      rw [hgrammar] at h
      have hfailure : reason.toFailure r.current.span source = .rejected error := by simpa using h
      unfold Refusal.toFailure at hfailure
      split at hfailure
      · obtain rfl := Failure.rejected.inj hfailure
        exact ⟨reason, r, rfl, rfl, rfl, rfl⟩
      · contradiction

/-- **An error points at the first wrong token**: at the position that it gives stands one token,
the tokens before this one could go on to a sentence, and with it they could not. -/
theorem rejected_at_first_wrong (h : ofSource source = .error (.rejected error))
    (hmessage : error.message ≠ "groups nested too deeply") :
    ∃ before token after, Token.significant source = before ++ token :: after ∧
      (token.span.line = error.line ∧ token.span.column = error.column) ∧
      (∀ other ∈ before ++ after,
        ¬(other.span.line = error.line ∧ other.span.column = error.column)) ∧
      Viable (before.map Token.kind) ∧ ¬Viable (before.map Token.kind ++ [token.kind]) := by
  have hs := TokenStream.terminated_ofSource source
  obtain ⟨reason, r, hgrammar, hreason, hline, hcolumn⟩ := exists_refused_of_rejected h
  obtain ⟨before, hbefore⟩ := (Parse.stays_grammar (Text.byteLength source.toList)).exists_taken
    (TokenStream.ofSource source)
  rw [hgrammar] at hbefore
  have hsignificant : Token.significant source = before ++ r.current :: r.ahead := by
    rw [← TokenStream.toList_ofSource, hbefore, TokenStream.toList_prepend]
    rfl
  refine ⟨before, r.current, r.ahead, hsignificant, ⟨hline, hcolumn⟩, ?_, ?_, ?_⟩
  · rintro other hother ⟨hline', hcolumn'⟩
    refine Token.position_ne_of_significant_eq hsignificant other hother ?_
    rw [Span.position, Span.position, hline', hcolumn', hline, hcolumn]
  · refine Parse.viable_of_refused hs hgrammar ?_ hbefore
    rintro rfl
    exact hmessage hreason
  · exact Parse.not_viable_of_refused hs hgrammar hbefore

set_option maxRecDepth 4000 in
/-- A closing parenthesis without an opening one is the first wrong token. -/
theorem rejected_at_parenthesis :
    ofSource "a: b )" =
        .error (.rejected ⟨"expected end of line, found ')'", 1, 6, "a: b )"⟩) ∧
      Viable [.rule "a", .punctuation .colon, .rule "b"] ∧
      ¬Viable [.rule "a", .punctuation .colon, .rule "b", .punctuation .rightParen] := by
  have hgrammar : Parse.grammar (Text.byteLength "a: b )".toList)
      (TokenStream.ofSource "a: b )") =
        .refused (.unexpected .endOfLine (.punctuation .rightParen))
          ⟨⟨.punctuation .rightParen, ⟨5, 6, 1, 6⟩⟩, [⟨.endOfInput, ⟨6, 6, 1, 7⟩⟩]⟩ := by cbv
  have hfailure : (Refusal.unexpected .endOfLine (.punctuation .rightParen)).toFailure
      ⟨5, 6, 1, 6⟩ "a: b )" =
        .rejected ⟨"expected end of line, found ')'", 1, 6, "a: b )"⟩ := by
    have hline : (Span.mk 5 6 1 6).lineText? "a: b )" = some "a: b )" := by cbv
    rw [Refusal.toFailure, hline]
    rfl
  have herror : ofSource "a: b )" =
      .error (.rejected ⟨"expected end of line, found ')'", 1, 6, "a: b )"⟩) := by
    rw [ofSource_eq, ofTokens, hgrammar]
    exact congrArg Except.error hfailure
  have htokens : Token.significant "a: b )" =
      [⟨.rule "a", ⟨0, 1, 1, 1⟩⟩, ⟨.punctuation .colon, ⟨1, 2, 1, 2⟩⟩, ⟨.rule "b", ⟨3, 4, 1, 4⟩⟩,
        ⟨.punctuation .rightParen, ⟨5, 6, 1, 6⟩⟩, ⟨.endOfInput, ⟨6, 6, 1, 7⟩⟩] := by cbv
  obtain ⟨before, token, after, hsplit, ⟨-, hcolumn⟩, -, hviable, hwrong⟩ :=
    rejected_at_first_wrong herror (by decide)
  rw [htokens] at hsplit
  -- the fourth token is the one at the position of the error
  rcases before with _ | ⟨_, _ | ⟨_, _ | ⟨_, _ | ⟨_, _ | ⟨_, before⟩⟩⟩⟩⟩ <;>
    simp only [List.nil_append, List.cons_append, List.cons.injEq] at hsplit
  · obtain ⟨rfl, -⟩ := hsplit
    contradiction
  · obtain ⟨-, rfl, -⟩ := hsplit
    contradiction
  · obtain ⟨-, -, rfl, -⟩ := hsplit
    contradiction
  · obtain ⟨rfl, rfl, rfl, rfl, rfl⟩ := hsplit
    exact ⟨herror, hviable, hwrong⟩
  · obtain ⟨-, -, -, -, rfl, -⟩ := hsplit
    contradiction
  · simp at hsplit

end Tree

end GrammarCatalog
