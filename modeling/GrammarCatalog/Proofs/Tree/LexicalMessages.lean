/-
**What is said of a token that is none.**

A stretch of text that is no token knows what is wrong with it, and where reading stops at one, the
error says just this.  There are two ways to stop there and say something else.  The token may be
one level too deep, whatever it is: then more brackets are open before it than groups and argument
lists may be nested.  And the second string of a range is asked for without asking
what stands in its place: there the error only says that it is no string.

Main results:

* `GrammarCatalog.Token.eq_of_position_eq` — a position is that of one token;
* `GrammarCatalog.Tree.message_of_malformed` — **an error says what is wrong with a token that is
  none** if and only if no range is open before it, and not too many brackets are.
-/

import GrammarCatalog.Proofs.Token.Positions
import GrammarCatalog.Proofs.Tree.Reasons

set_option relaxedAutoImplicit false
set_option autoImplicit false

namespace GrammarCatalog

variable {source : String}

/-! ### Positions -/

/-- Two tokens of a text at one position are the same, at the same place among the tokens. -/
theorem Token.eq_of_position_eq {before after before' after' : List Token} {token token' : Token}
    (h : significant source = before ++ token :: after)
    (h' : significant source = before' ++ token' :: after')
    (hposition : token.span.position = token'.span.position) :
    before = before' ∧ token = token' := by
  have hother := position_ne_of_significant_eq h
  have hother' := position_ne_of_significant_eq h'
  rcases List.append_eq_append_iff.1 (h.symm.trans h') with
    ⟨between, hbefore, hafter⟩ | ⟨between, hbefore, hafter⟩
  · cases between with
    | nil => exact ⟨by simp [hbefore], (List.cons.inj hafter).1⟩
    | cons first between =>
        obtain ⟨rfl, -⟩ := List.cons.inj hafter
        exact absurd hposition (hother' token (by simp [hbefore]))
  · cases between with
    | nil => exact ⟨by simp [hbefore], (List.cons.inj hafter).1.symm⟩
    | cons first between =>
        obtain ⟨rfl, -⟩ := List.cons.inj hafter
        exact absurd hposition.symm (hother token' (by simp [hbefore]))

/-! ### Messages -/

/-- The failure of a refusal has its message, and the position of the refused token. -/
theorem Refusal.eq_of_toFailure {reason : Refusal} {span : Span} {error : ParseError}
    (h : reason.toFailure span source = .rejected error) :
    error.message = reason.message ∧ span.line = error.line ∧ span.column = error.column := by
  unfold toFailure at h
  split at h
  · obtain rfl := Failure.rejected.inj h
    exact ⟨rfl, rfl, rfl⟩
  · contradiction

/-- What is refused of a text is its error. -/
theorem Tree.ofSource_of_refused {reason : Refusal} {rest : TokenStream} {lineText : String}
    (h : Parse.grammar (Text.byteLength source.toList) (TokenStream.ofSource source) =
      .refused reason rest)
    (hline : rest.current.span.lineText? source = some lineText) :
    ofSource source = .error (.rejected
      ⟨reason.message, rest.current.span.line, rest.current.span.column, lineText⟩) := by
  rw [ofSource_eq, ofTokens, h]
  simp only [Refusal.toFailure, TokenSource.stream_eq, hline]

/-- What is wrong with a token that is none is neither that a string was expected nor that groups
are nested too deeply. -/
theorem LexicalError.message_ne (cause : LexicalError) :
    cause.message ≠ "expected string after '..', found error" ∧
      cause.message ≠ Refusal.nestedTooDeeply.message := by
  -- the other message begins with another character
  have hlead {lead other : String} (text : String) (hlead : lead.toList ≠ [])
      (hhead : lead.toList.head? ≠ other.toList.head?) : lead ++ text ≠ other := by
    intro heq
    refine hhead ?_
    rw [← heq, String.toList_append]
    cases hchars : lead.toList with
    | nil => contradiction
    | cons c cs => rfl
  cases cause with
  | unknownDirective | invalidName | inlinedAndConditional | markedTerminal
  | unexpectedCharacter =>
      exact ⟨hlead _ (by decide +kernel) (by decide +kernel),
        hlead _ (by decide +kernel) (by decide +kernel)⟩
  | _ => exact ⟨by decide +kernel, by decide +kernel⟩

namespace Tree

/-- **What an error says of a token that is none.**  Where reading stops at such a token, the error
says what is wrong with it if and only if no range is open before it, and no more brackets than
groups and argument lists may be nested.  Behind more of them it says so, and only there.  Behind a
string and two dots it says that a string was expected. -/
theorem message_of_malformed {error : ParseError} {before after : List Token} {token : Token}
    {cause : LexicalError} (h : ofSource source = .error (.rejected error))
    (hsignificant : Token.significant source = before ++ token :: after)
    (hplace : token.span.line = error.line ∧ token.span.column = error.column)
    (hkind : token.kind = .malformed cause) :
    (error.message = cause.message ↔
      ¬Token.OpenRange before ∧ Token.openCount before ≤ Parse.maxNesting) ∧
    (error.message = "groups nested too deeply" ↔ Parse.maxNesting < Token.openCount before) ∧
    (Token.OpenRange before ↔ error.message = "expected string after '..', found error") := by
  obtain ⟨reason, before', token', after', hsignificant', hfailure, hreason, -⟩ :=
    exists_fits_of_error h
  obtain ⟨hmessage, hline, hcolumn⟩ := Refusal.eq_of_toFailure hfailure.symm
  have hposition : token.span.position = token'.span.position := by
    rw [Span.position, Span.position, hplace.1, hplace.2, hline, hcolumn]
  obtain ⟨rfl, rfl⟩ := Token.eq_of_position_eq hsignificant hsignificant' hposition
  have hopen : Token.OpenRange before ↔ reason.AsksForString :=
    hreason.range Token.not_endInDots_nil
  obtain ⟨hstring, hdeep⟩ := cause.message_ne
  have hconcerns := hreason.concerns
  rw [hopen, hmessage]
  rw [hkind] at hconcerns
  cases reason with
  | malformed other =>
      obtain rfl := TokenKind.malformed.inj hconcerns
      have hshallow := hreason.shallow (by simp)
      exact ⟨iff_of_true rfl ⟨id, hshallow⟩, iff_of_false hdeep (Int.not_lt.2 hshallow),
        iff_of_false id hstring⟩
  | nestedTooDeeply =>
      have hlevel : Parse.maxNesting < Token.openCount before := by
        refine (hreason.tooDeep rfl).resolve_right ?_
        rintro ⟨-, hgroup | hgroup⟩ <;> simp [hkind] at hgroup
      refine ⟨iff_of_false hdeep.symm fun hshallow => ?_, iff_of_true rfl hlevel,
        iff_of_false id (by decide +kernel)⟩
      exact absurd hlevel (Int.not_lt.2 hshallow.2)
  | unexpected expected found =>
      obtain ⟨rfl, rfl | ⟨-, hproper⟩⟩ := hconcerns
      · have hfound : (Refusal.unexpected .upperString (.malformed cause)).message =
            "expected string after '..', found error" := rfl
        have hshallow := hreason.shallow (by simp)
        rw [hfound]
        exact ⟨iff_of_false hstring.symm fun h => h.1 trivial,
          iff_of_false (by decide +kernel) (Int.not_lt.2 hshallow), iff_of_true trivial rfl⟩
      · exact absurd rfl (hproper cause)
  | aliasOutsideRule | unknownDirective name => contradiction

set_option maxRecDepth 4000 in
/-- Behind the dots of a repetition no range is open, so the error says what is wrong. -/
theorem message_of_openRepetition :
    ofSource "a: b ~ 1..$" =
        .error (.rejected ⟨"unexpected character: $", 1, 11, "a: b ~ 1..$"⟩) ∧
      ∃ before token after, Token.significant "a: b ~ 1..$" = before ++ token :: after ∧
        token.span.line = 1 ∧ token.span.column = 11 ∧
        token.kind = .malformed (.unexpectedCharacter '$') ∧ ¬Token.OpenRange before ∧
        Token.openCount before ≤ Parse.maxNesting := by
  have herror : ofSource "a: b ~ 1..$" =
      .error (.rejected ⟨"unexpected character: $", 1, 11, "a: b ~ 1..$"⟩) := by
    have hgrammar : Parse.grammar (Text.byteLength "a: b ~ 1..$".toList)
        (TokenStream.ofSource "a: b ~ 1..$") =
          .refused (.malformed (.unexpectedCharacter '$'))
            ⟨⟨.malformed (.unexpectedCharacter '$'), ⟨10, 11, 1, 11⟩⟩,
              [⟨.endOfInput, ⟨11, 11, 1, 12⟩⟩]⟩ := by cbv
    have hline : (Span.mk 10 11 1 11).lineText? "a: b ~ 1..$" = some "a: b ~ 1..$" := by cbv
    exact ofSource_of_refused hgrammar hline
  have hsignificant : Token.significant "a: b ~ 1..$" =
      [⟨.rule "a", ⟨0, 1, 1, 1⟩⟩, ⟨.punctuation .colon, ⟨1, 2, 1, 2⟩⟩,
        ⟨.rule "b", ⟨3, 4, 1, 4⟩⟩, ⟨.punctuation .tilde, ⟨5, 6, 1, 6⟩⟩,
        ⟨.number 1, ⟨7, 8, 1, 8⟩⟩, ⟨.punctuation .dotDot, ⟨8, 10, 1, 9⟩⟩] ++
      ⟨.malformed (.unexpectedCharacter '$'), ⟨10, 11, 1, 11⟩⟩ ::
        [⟨.endOfInput, ⟨11, 11, 1, 12⟩⟩] := by cbv
  refine ⟨herror, _, _, _, hsignificant, rfl, rfl, rfl, ?_⟩
  exact (message_of_malformed herror hsignificant ⟨rfl, rfl⟩ rfl).1.1 rfl

set_option maxRecDepth 4000 in
/-- Behind the dots of a range the error does not say what is wrong with the character. -/
theorem message_of_openRange :
    ∃ error before token after,
      ofSource "a: \"b\"..$" = .error (.rejected error) ∧
      Token.significant "a: \"b\"..$" = before ++ token :: after ∧
      (token.span.line = error.line ∧ token.span.column = error.column) ∧
      token.kind = .malformed (.unexpectedCharacter '$') ∧ Token.openCount before = 0 ∧
      error.message ≠ (LexicalError.unexpectedCharacter '$').message ∧
      error.message ≠ "groups nested too deeply" := by
  have herror : ofSource "a: \"b\"..$" = .error (.rejected
      ⟨"expected string after '..', found error", 1, 9, "a: \"b\"..$"⟩) := by
    have hgrammar : Parse.grammar (Text.byteLength "a: \"b\"..$".toList)
        (TokenStream.ofSource "a: \"b\"..$") =
          .refused (.unexpected .upperString (.malformed (.unexpectedCharacter '$')))
            ⟨⟨.malformed (.unexpectedCharacter '$'), ⟨8, 9, 1, 9⟩⟩,
              [⟨.endOfInput, ⟨9, 9, 1, 10⟩⟩]⟩ := by cbv
    have hline : (Span.mk 8 9 1 9).lineText? "a: \"b\"..$" = some "a: \"b\"..$" := by cbv
    exact ofSource_of_refused hgrammar hline
  have hsignificant : Token.significant "a: \"b\"..$" =
      [⟨.rule "a", ⟨0, 1, 1, 1⟩⟩, ⟨.punctuation .colon, ⟨1, 2, 1, 2⟩⟩,
        ⟨.string "b" false, ⟨3, 6, 1, 4⟩⟩, ⟨.punctuation .dotDot, ⟨6, 8, 1, 7⟩⟩] ++
      ⟨.malformed (.unexpectedCharacter '$'), ⟨8, 9, 1, 9⟩⟩ ::
        [⟨.endOfInput, ⟨9, 9, 1, 10⟩⟩] := by cbv
  exact ⟨_, _, _, _, herror, hsignificant, ⟨rfl, rfl⟩, rfl, rfl, by decide +kernel,
    by decide +kernel⟩

end Tree

end GrammarCatalog
