/-
**Where reading stops.**

Whether a parser accepts or refuses, it stops at a token of its stream: what is left is always a
last part of the stream.  So a refused token is a token of the text, and stands in it.  The token
where a parser stops is also the last one it looks at: whatever stands behind this token, the
parser does the same.

Main definitions:

* `GrammarCatalog.Parse.Stays` — a parser stops at a token of its stream;
* `GrammarCatalog.Parse.Forward` — and does not look behind this token.

Main results:

* `GrammarCatalog.Parse.Forward.bind`, `GrammarCatalog.Parse.Forward.many` — sequences and
  repetitions of such parsers are such parsers;
* `GrammarCatalog.Parse.forward_grammar` — **so is the parser of texts**.
-/

import GrammarCatalog.Proofs.MetaGrammar.Acceptance

set_option relaxedAutoImplicit false
set_option autoImplicit false

namespace GrammarCatalog.Parse

variable {α β : Type} {parser item : Parse TokenStream α}

/-- What is left from the token on where a parser has stopped. -/
def Outcome.rest {σ : Type} : Outcome σ α → σ
  | .accepted _ rest | .refused _ rest => rest

/-- The same outcome at another stream. -/
def Outcome.withRest (outcome : Outcome TokenStream α) (rest : TokenStream) :
    Outcome TokenStream α :=
  match outcome with
  | .accepted value _ => .accepted value rest
  | .refused reason _ => .refused reason rest

/-- A parser stops at a token of its stream, whether it accepts or refuses. -/
def Stays (parser : Parse TokenStream α) : Prop := ∀ s, (parser s).rest.toList <:+ s.toList

/-- A parser stops at a token of its stream and does not look behind this token. -/
structure Forward (parser : Parse TokenStream α) : Prop where
  /-- It stops at a token of its stream. -/
  stays : parser.Stays
  /-- Whatever stands behind this token, it does the same. -/
  resumes {s r : TokenStream} {taken : List Token} : s.Terminated →
    s = (parser s).rest.prepend taken → r.current = (parser s).rest.current →
    (r.prepend taken).Terminated → parser (r.prepend taken) = (parser s).withRest r

/-- What was taken of the stream where a parser stops. -/
theorem Stays.exists_taken (h : parser.Stays) (s : TokenStream) :
    ∃ taken, s = (parser s).rest.prepend taken := by
  obtain ⟨taken, htaken⟩ := h s
  exact ⟨taken, TokenStream.toList_injective (by rw [TokenStream.toList_prepend, htaken])⟩

theorem Forward.passes (h : parser.Forward) : parser.Passes := by
  intro s value r _ haccepted
  have hstays := h.stays s
  rwa [haccepted] at hstays

/-! ### Tokens and sequences -/

/-- A parser that takes nothing and looks at the current token alone. -/
theorem forward_of_rest_eq (hrest : ∀ s, (parser s).rest = s)
    (hcurrent : ∀ s r, r.current = s.current → parser r = (parser s).withRest r) :
    parser.Forward where
  stays s := by rw [hrest]
  resumes {s r taken} _ htaken hr _ := by
    rw [hrest] at htaken hr
    obtain rfl : [] = taken := TokenStream.prepend_cancel htaken
    exact hcurrent s r hr

theorem forward_pure (value : α) : (pure value : Parse TokenStream α).Forward :=
  forward_of_rest_eq (fun _ => rfl) fun _ _ _ => rfl

theorem forward_current : current.Forward := by
  refine forward_of_rest_eq (fun _ => rfl) fun s r hr => ?_
  rw [current_apply, current_apply, hr]
  rfl

theorem forward_kind : kind.Forward := by
  refine forward_of_rest_eq (fun _ => rfl) fun s r hr => ?_
  rw [kind_apply, kind_apply, hr]
  rfl

theorem forward_refuse (reason : Refusal) : (refuse reason : Parse TokenStream α).Forward :=
  forward_of_rest_eq (fun _ => rfl) fun _ _ _ => rfl

theorem forward_unexpected (expected : Expectation) :
    (unexpected expected : Parse TokenStream α).Forward := by
  refine forward_of_rest_eq (fun s => ?_) fun s r hr => ?_
  · unfold unexpected
    split <;> rfl
  · simp only [unexpected, TokenSource.stream_eq, hr]
    split <;> rfl

theorem forward_take : take.Forward where
  stays s := by
    change s.advance.toList <:+ s.toList
    rw [TokenStream.toList_advance]
    split
    · exact List.suffix_refl _
    · exact List.suffix_cons _ _
  resumes {s r taken} hs htaken hr hterminated := by
    change s = s.advance.prepend taken at htaken
    change r.current = s.advance.current at hr
    by_cases hend : s.current.kind = .endOfInput
    · -- at the end of the text nothing is taken, and nothing stands behind
      have hstays : s.advance = s := by rw [TokenStream.advance, hs.current_iff.1 hend]
      rw [hstays] at htaken hr
      obtain rfl : [] = taken := TokenStream.prepend_cancel htaken
      have hahead : r.ahead = [] := hterminated.current_iff.1 (hr ▸ hend)
      rw [TokenStream.prepend_nil, take_apply, hr, TokenStream.advance, hahead]
      rfl
    · have hone := (hs.eq_cons hend).symm.trans htaken
      obtain rfl : [s.current] = taken := TokenStream.prepend_cancel hone
      rfl

/-- A sequence goes forward if its parts do. -/
theorem Forward.bind {next : α → Parse TokenStream β} (h : parser.Forward)
    (hnext : ∀ value, (next value).Forward) : (parser >>= next).Forward where
  stays s := by
    have hs := h.stays s
    rw [bind_apply]
    cases houtcome : parser s with
    | accepted value rest =>
        rw [houtcome] at hs
        exact ((hnext value).stays rest).trans hs
    | refused reason rest =>
        rw [houtcome] at hs
        exact hs
  resumes {s r taken} hs htaken hr hterminated := by
    have hresumes {r : TokenStream} {taken : List Token} := @Forward.resumes _ _ h s r taken hs
    have hfirst := h.stays.exists_taken s
    have hstays := h.stays s
    rw [bind_apply] at htaken hr ⊢
    rw [bind_apply]
    cases houtcome : parser s with
    | refused reason m =>
        simp only [houtcome, andThen_refused, Outcome.rest] at hresumes htaken hr
        rw [hresumes htaken hr hterminated]
        rfl
    | accepted value m =>
        simp only [houtcome, andThen_accepted, Outcome.rest] at hresumes htaken hr hfirst hstays
        -- what the sequence takes, its parts take one after the other
        obtain ⟨first, hfirst⟩ := hfirst
        obtain ⟨second, hsecond⟩ := (hnext value).stays.exists_taken m
        obtain rfl : first ++ second = taken := by
          refine TokenStream.prepend_cancel (r := ((next value) m).rest) ?_
          rw [TokenStream.prepend_append, ← hsecond]
          exact hfirst.symm.trans htaken
        rw [TokenStream.prepend_append] at hterminated ⊢
        have hcurrent : (r.prepend second).current = m.current := by
          rw [hsecond]
          cases second with
          | nil => exact hr
          | cons t second => rfl
        have hm : (r.prepend second).Terminated :=
          hterminated.of_suffix ⟨first, (TokenStream.toList_prepend ..).symm⟩
        rw [hresumes hfirst hcurrent hterminated]
        exact (hnext value).resumes (hs.of_suffix hstays) hsecond hr hm

theorem Forward.ite {condition : Prop} [Decidable condition] {other : Parse TokenStream α}
    (h : parser.Forward) (hother : other.Forward) :
    (if condition then parser else other).Forward := by
  split
  · exact h
  · exact hother

theorem forward_expect (expected : Expectation) (suits : TokenKind → Bool) :
    (expect expected suits).Forward :=
  forward_kind.bind fun _ => forward_take.ite (forward_unexpected expected)

theorem forward_sign (which : Punctuation) : (sign which).Forward := forward_expect _ _

theorem forward_ruleName : ruleName.Forward := forward_expect _ _

theorem forward_name : name.Forward := forward_expect _ _

theorem forward_number : number.Forward := forward_expect _ _

theorem forward_refuseMalformed : refuseMalformed.Forward := by
  refine forward_kind.bind fun kind => ?_
  split
  · exact forward_refuse _
  · exact forward_pure _

/-! ### Repetitions -/

theorem forward_manyWithin {goesOn : TokenKind → Bool} (h : item.Forward) (bound : List Token) :
    (manyWithin goesOn item bound).Forward := by
  induction bound with
  | nil => exact forward_pure _
  | cons _ bound ih =>
      refine forward_kind.bind fun _ => Forward.ite ?_ (forward_pure _)
      exact h.bind fun _ => ih.bind fun _ => forward_pure _

/-- A repetition goes forward if its rounds do, and each takes a token. -/
theorem Forward.many {goesOn : TokenKind → Bool} (h : item.Forward)
    (hconsumes : item.Consumes goesOn) : (many goesOn item).Forward where
  stays s := (forward_manyWithin h s.toList).stays s
  resumes {s r taken} hs htaken hr hterminated := by
    -- one bound will do for both streams
    obtain ⟨bound, hbound⟩ : ∃ bound, bound = s.toList ++ (r.prepend taken).toList := ⟨_, rfl⟩
    have hlength := congrArg List.length hbound
    simp only [List.length_append, TokenStream.toList, List.length_cons] at hlength
    have hfirst : manyWithin goesOn item bound s = Parse.many goesOn item s :=
      manyWithin_eq_many hconsumes hs (by omega)
    have hsecond : manyWithin goesOn item bound (r.prepend taken) =
        Parse.many goesOn item (r.prepend taken) :=
      manyWithin_eq_many hconsumes hterminated (by omega)
    rw [← hfirst] at htaken hr ⊢
    rw [← hsecond]
    exact (forward_manyWithin h bound).resumes hs htaken hr hterminated

theorem forward_separated {separator : Punctuation} (h : item.Forward) :
    (separated separator item).Forward := by
  refine h.bind fun _ => Forward.bind (Forward.many ?_ ?_) fun _ => forward_pure _
  · exact forward_take.bind fun _ => h
  · exact consumes_separated h.passes

/-! ### Values and groups -/

theorem forward_literalString : literalString.Forward := by
  refine forward_take.bind fun _ => forward_kind.bind fun _ => Forward.ite ?_ (forward_pure _)
  refine forward_take.bind fun _ => forward_kind.bind fun kind => ?_
  split
  · exact forward_take.bind fun _ => forward_pure _
  · exact forward_refuse _

theorem forward_ruleReference {argument : Parse TokenStream Child} (h : argument.Forward) :
    (ruleReference argument).Forward := by
  refine forward_take.bind fun _ => forward_kind.bind fun _ => Forward.ite ?_ (forward_pure _)
  refine forward_take.bind fun _ => (forward_separated h).bind fun _ => ?_
  exact (forward_sign _).bind fun _ => forward_pure _

theorem forward_valueWith {argument : Parse TokenStream Child} (h : argument.Forward) :
    (valueWith argument).Forward := by
  refine forward_kind.bind fun kind => ?_
  split
  · exact forward_literalString
  · exact forward_take.bind fun _ => forward_pure _
  · exact forward_take.bind fun _ => forward_pure _
  · exact forward_ruleReference h
  · exact forward_unexpected _

theorem forward_value (depth : ℕ) : (value depth).Forward := by
  induction depth with
  | zero =>
      rw [value_zero]
      exact forward_valueWith (forward_refuse _)
  | succ depth ih =>
      rw [value_succ]
      exact forward_valueWith ih

theorem forward_groupWith {body : Parse TokenStream Tree} (h : body.Forward) :
    (groupWith body).Forward := by
  refine forward_take.bind fun _ => h.bind fun _ => Forward.ite ?_ ?_
  · exact (forward_sign _).bind fun _ => forward_pure _
  · exact (forward_sign _).bind fun _ => forward_pure _

theorem forward_atomWith {group atom : Parse TokenStream Child} (hgroup : group.Forward)
    (hatom : atom.Forward) : (atomWith group atom).Forward := by
  refine forward_kind.bind fun kind => ?_
  split
  · exact hgroup
  · exact hgroup
  · exact hatom

theorem forward_repetition (operand : Child) : (repetition operand).Forward := by
  refine forward_take.bind fun _ => forward_number.bind fun _ => forward_kind.bind fun _ => ?_
  refine Forward.ite ?_ (forward_pure _)
  exact forward_take.bind fun _ => forward_number.bind fun _ => forward_pure _

theorem forward_exprWith {atom : Parse TokenStream Child} (h : atom.Forward) :
    (exprWith atom).Forward := by
  refine h.bind fun operand => forward_kind.bind fun kind => ?_
  split
  · exact forward_take.bind fun _ => forward_pure _
  · exact forward_take.bind fun _ => forward_pure _
  · exact forward_take.bind fun _ => forward_pure _
  · exact forward_repetition _
  · exact forward_pure _

/-! ### Alternatives -/

theorem forward_expansionWith {item : Parse TokenStream Child} (h : item.Forward)
    (hconsumes : item.Consumes startsItem) : (expansionWith item).Forward :=
  forward_current.bind fun _ => (h.many hconsumes).bind fun _ =>
    forward_refuseMalformed.bind fun _ => forward_pure _

theorem forward_alternativeWith {aliases : Bool} {item : Parse TokenStream Child} (h : item.Forward)
    (hconsumes : item.Consumes startsItem) : (alternativeWith aliases item).Forward := by
  refine (forward_expansionWith h hconsumes).bind fun _ => forward_kind.bind fun _ => ?_
  refine Forward.ite (Forward.ite ?_ (forward_refuse _)) (forward_pure _)
  exact forward_take.bind fun _ => forward_ruleName.bind fun _ => forward_pure _

theorem forward_expansionsWith {aliases : Bool} {item : Parse TokenStream Child} (h : item.Forward)
    (hconsumes : item.Consumes startsItem) : (expansionsWith aliases item).Forward :=
  (forward_separated (forward_alternativeWith h hconsumes)).bind fun _ => forward_pure _

/-- Alternatives go forward if the groups in them do. -/
theorem forward_expansions_of_group {depth : ℕ}
    (h : (group depth : Parse TokenStream Child).Forward) (aliases : Bool) :
    (expansions depth aliases : Parse TokenStream Tree).Forward := by
  rw [expansions_eq]
  exact forward_expansionsWith (forward_exprWith (forward_atomWith h (forward_value depth)))
    (consumes_item (recognizes_item depth))

theorem forward_expansions (depth : ℕ) (aliases : Bool) :
    (expansions depth aliases : Parse TokenStream Tree).Forward := by
  induction depth generalizing aliases with
  | zero =>
      refine forward_expansions_of_group ?_ aliases
      rw [group_zero]
      exact forward_refuse .nestedTooDeeply
  | succ depth ih =>
      refine forward_expansions_of_group ?_ aliases
      rw [group_succ]
      exact forward_groupWith (ih true)

/-! ### Statements -/

theorem forward_templateParams : templateParams.Forward := by
  refine forward_kind.bind fun _ => Forward.ite ?_ (forward_pure _)
  refine forward_take.bind fun _ => (forward_separated forward_ruleName).bind fun _ => ?_
  exact (forward_sign _).bind fun _ => forward_pure _

theorem forward_priority : priority.Forward := by
  refine forward_kind.bind fun _ => Forward.ite ?_ (forward_pure _)
  exact forward_take.bind fun _ => forward_number.bind fun _ => forward_pure _

theorem forward_rule : rule.Forward := by
  refine forward_take.bind fun _ => forward_templateParams.bind fun _ => ?_
  refine forward_priority.bind fun _ => ?_
  exact (forward_sign _).bind fun _ => (forward_expansions _ _).bind fun _ => forward_pure _

theorem forward_term : term.Forward := by
  refine forward_take.bind fun _ => forward_priority.bind fun _ => ?_
  exact (forward_sign _).bind fun _ => (forward_expansions _ _).bind fun _ => forward_pure _

theorem forward_definition (expected : Expectation) : (definition expected).Forward := by
  refine forward_kind.bind fun kind => ?_
  split
  · exact forward_rule
  · exact forward_term
  · exact forward_unexpected _

theorem forward_importPath : importPath.Forward := by
  refine forward_current.bind fun _ => forward_kind.bind fun _ => Forward.ite ?_ ?_
  · refine forward_take.bind fun _ => (forward_pure _).bind fun _ => ?_
    exact (forward_separated forward_name).bind fun _ => forward_pure _
  · refine (forward_pure _).bind fun _ => ?_
    exact (forward_separated forward_name).bind fun _ => forward_pure _

theorem forward_imported (start : Span) : (imported start).Forward := by
  refine forward_importPath.bind fun _ => forward_kind.bind fun kind => ?_
  split
  · refine forward_take.bind fun _ => (forward_separated forward_name).bind fun _ => ?_
    exact (forward_sign _).bind fun _ => forward_pure _
  · exact forward_take.bind fun _ => forward_name.bind fun _ => forward_pure _
  · exact forward_pure _

theorem forward_declared (start : Span) : (declared start).Forward :=
  forward_name.bind fun _ => (forward_name.many consumes_name).bind fun _ => forward_pure _

theorem forward_redefinition (node : NodeKind) (which : Directive) (start : Span) :
    (redefinition node which start).Forward := (forward_definition _).bind fun _ => forward_pure _

theorem forward_directive (name : String) : (directive name).Forward := by
  unfold directive
  split
  · exact forward_refuse _
  · refine forward_take.bind fun token => ?_
    split
    · exact (forward_expansions _ _).bind fun _ => forward_pure _
    · exact forward_imported _
    · exact forward_declared _
    · exact forward_redefinition _ _ _
    · exact forward_redefinition _ _ _

theorem forward_statement : statement.Forward := by
  refine forward_kind.bind fun kind => ?_
  split
  · exact forward_directive _
  · exact forward_definition _

/-! ### Texts -/

theorem forward_endOfStatement : endOfStatement.Forward := by
  refine forward_kind.bind fun kind => ?_
  split
  · exact forward_take.bind fun _ => forward_pure _
  · exact forward_pure _
  · exact forward_unexpected _

theorem forward_blankLines : blankLines.Forward :=
  (forward_take.many consumes_take).bind fun _ => forward_pure _

theorem forward_terminatedStatement : terminatedStatement.Forward :=
  forward_statement.bind fun _ => forward_endOfStatement.bind fun _ =>
    forward_blankLines.bind fun _ => forward_pure _

/-- **The parser of texts goes forward.** -/
theorem forward_grammar (length : ℕ) : (grammar length).Forward :=
  forward_blankLines.bind fun _ =>
    (forward_terminatedStatement.many consumes_terminatedStatement).bind fun _ => forward_pure _

/-- The parser of texts stops at a token of its stream. -/
theorem stays_grammar (length : ℕ) : (grammar length).Stays := (forward_grammar length).stays

end GrammarCatalog.Parse
