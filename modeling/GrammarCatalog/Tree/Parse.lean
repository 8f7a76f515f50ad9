/-
**Parsers of token streams.**

A parser works on a source of tokens and either accepts, with a value and what is left behind the
tokens that it took, or refuses, with a reason and what is left from the token on that it refuses.
A refusal is final: no parser tries another way, so the refused token is the first one that does not
fit.

Main definitions:

* `GrammarCatalog.Parse.Outcome`, `GrammarCatalog.Parse` — outcomes and parsers;
* `GrammarCatalog.Parse.take`, `GrammarCatalog.Parse.expect`, `GrammarCatalog.Parse.unexpected` —
  taking the current token, or refusing it;
* `GrammarCatalog.Parse.nested` — parsing one level deeper;
* `GrammarCatalog.Parse.many`, `GrammarCatalog.Parse.separated` — parsing one thing repeatedly, for
  as long as the current token calls for it.

Main results:

* `GrammarCatalog.Parse.many_eq` — repetition goes on until a token ends it, provided that each
  round takes a token.
-/

import GrammarCatalog.Tree.Reader
import GrammarCatalog.Tree.Refusal

set_option relaxedAutoImplicit false
set_option autoImplicit false

namespace GrammarCatalog

/-- What a parser makes of a source of tokens. -/
inductive Parse.Outcome (σ α : Type) where
  /-- A value, and what is left behind the tokens that were taken. -/
  | accepted (value : α) (rest : σ)
  /-- A reason, and what is left from the refused token on. -/
  | refused (reason : Refusal) (rest : σ)

/-- A parser of sources of tokens. -/
def Parse (σ α : Type) : Type := σ → Parse.Outcome σ α

namespace Parse

variable {σ α β : Type}

/-- What comes of going on from an outcome: a refusal stays. -/
def Outcome.andThen (outcome : Outcome σ α) (next : α → Parse σ β) : Outcome σ β :=
  match outcome with
  | .accepted value rest => next value rest
  | .refused reason rest => .refused reason rest

instance : Monad (Parse σ) where
  pure value := fun source => .accepted value source
  bind parser next := fun source => (parser source).andThen next

@[simp] theorem pure_apply (value : α) (source : σ) :
    (pure value : Parse σ α) source = .accepted value source := rfl

@[simp] theorem bind_apply (parser : Parse σ α) (next : α → Parse σ β) (source : σ) :
    (parser >>= next) source = (parser source).andThen next := rfl

@[simp] theorem andThen_accepted (value : α) (rest : σ) (next : α → Parse σ β) :
    (Outcome.accepted value rest).andThen next = next value rest := rfl

@[simp] theorem andThen_refused (reason : Refusal) (rest : σ) (next : α → Parse σ β) :
    (Outcome.refused reason rest).andThen next = .refused reason rest := rfl

/-- The current token is refused. -/
def refuse (reason : Refusal) : Parse σ α := fun source => .refused reason source

variable [TokenSource σ]

/-! ### The current token -/

/-- The current token, which stays where it is. -/
def current : Parse σ Token := fun source => .accepted (TokenSource.stream source).current source

/-- The kind of the current token, which stays where it is. -/
def kind : Parse σ TokenKind :=
  fun source => .accepted (TokenSource.stream source).current.kind source

/-- The current token is taken. -/
def take : Parse σ Token :=
  fun source => .accepted (TokenSource.stream source).current (TokenSource.advance source)

/-- The current token is refused because something else was expected, or, if it is no token, for
that. -/
def unexpected (expected : Expectation) : Parse σ α := fun source =>
  match (TokenSource.stream source).current.kind with
  | .malformed cause => .refused (.malformed cause) source
  | found => .refused (.unexpected expected found) source

/-- The current token is taken if its kind will do, and refused otherwise. -/
def expect (expected : Expectation) (suits : TokenKind → Bool) : Parse σ Token := do
  if suits (← kind) then take else unexpected expected

/-- A sign is taken. -/
def sign (which : Punctuation) : Parse σ Token := expect (.sign which) (· == .punctuation which)

/-- The name of a rule is taken. -/
def ruleName : Parse σ Token := expect .ruleName fun kind => kind.ruleName?.isSome

/-- The name of a rule or a terminal is taken. -/
def name : Parse σ Token := expect .name fun kind => kind.name?.isSome

/-- An integer is taken. -/
def number : Parse σ Token :=
  expect .number fun
    | .number _ => true
    | _ => false

/-- A token that is no token is refused; any other stays where it is. -/
def refuseMalformed : Parse σ Unit := do
  match ← kind with
  | .malformed cause => refuse (.malformed cause)
  | _ => return ()

/-! ### Levels -/

/-- The outcome back from one level deeper. -/
def Outcome.leave : Outcome σ α → Outcome σ α
  | .accepted value rest => .accepted value (TokenSource.leave rest)
  | .refused reason rest => .refused reason (TokenSource.leave rest)

/-- A parser goes one level deeper, and comes back whether it accepts or refuses.  Where this is too
deep, the current token is refused. -/
def nested (parser : Parse σ α) : Parse σ α := fun source =>
  match TokenSource.enter? source with
  | some inner => (parser inner).leave
  | none => .refused .nestedTooDeeply source

/-- A stream can be taken to any depth. -/
@[simp] theorem nested_eq (parser : Parse TokenStream α) : nested parser = parser := by
  funext stream
  change (parser stream).leave = parser stream
  cases parser stream <;> rfl

/-! ### Repetition -/

/-- One thing after another while the current token calls for it, at most as often as there are
tokens in a list. -/
def manyWithin (goesOn : TokenKind → Bool) (item : Parse σ α) : List Token → Parse σ (List α)
  | [] => return []
  | _ :: bound => do
      if goesOn (← kind) then
        let first ← item
        let others ← manyWithin goesOn item bound
        return first :: others
      else
        return []

/-- One thing after another, while the current token calls for it.  Each of them takes a token,
so there are no more of them than tokens. -/
def many (goesOn : TokenKind → Bool) (item : Parse σ α) : Parse σ (List α) := fun source =>
  manyWithin goesOn item (TokenSource.stream source).toList source

/-- One thing or several, with a sign between them. -/
def separated (separator : Punctuation) (item : Parse σ α) : Parse σ (List α) := do
  let first ← item
  let others ← many (· == .punctuation separator) do
    let _ ← take
    item
  return first :: others

/-- A parser that takes at least one token from the front of the stream, whenever the current
token calls for it and it accepts. -/
def Consumes (goesOn : TokenKind → Bool) (parser : Parse TokenStream α) : Prop :=
  ∀ stream value rest, stream.Terminated → goesOn stream.current.kind = true →
    parser stream = .accepted value rest →
      ∃ taken, taken ≠ [] ∧ stream.toList = taken ++ rest.toList

section Consumes

variable {goesOn : TokenKind → Bool} {item : Parse TokenStream α} {stream rest : TokenStream}
  {value : α}

theorem Consumes.terminated (h : item.Consumes goesOn) (ends : stream.Terminated)
    (calls : goesOn stream.current.kind = true) (accepted : item stream = .accepted value rest) :
    rest.Terminated := by
  obtain ⟨taken, _, heq⟩ := h stream value rest ends calls accepted
  exact ends.of_suffix ⟨taken, heq.symm⟩

theorem Consumes.length_lt (h : item.Consumes goesOn) (ends : stream.Terminated)
    (calls : goesOn stream.current.kind = true) (accepted : item stream = .accepted value rest) :
    rest.ahead.length < stream.ahead.length := by
  obtain ⟨taken, hne, heq⟩ := h stream value rest ends calls accepted
  have hlen := congrArg List.length heq
  have hpos := List.length_pos_iff.2 hne
  simp only [TokenStream.toList, List.length_append, List.length_cons] at hlen
  omega

/-- A longer bound changes nothing. -/
theorem manyWithin_eq_many (h : item.Consumes goesOn) {bound : List Token}
    (ends : stream.Terminated) (enough : stream.ahead.length < bound.length) :
    manyWithin goesOn item bound stream = many goesOn item stream := by
  -- any two bounds agree that are both longer than what lies ahead
  have gen (least : List Token) : ∀ (bound : List Token) (stream : TokenStream),
      stream.Terminated → stream.ahead.length < least.length →
      stream.ahead.length < bound.length →
      manyWithin goesOn item bound stream = manyWithin goesOn item least stream := by
    induction least with
    | nil => intro bound stream _ hleast; simp at hleast
    | cons _ least ih =>
        intro bound stream ends hleast hbound
        cases bound with
        | nil => simp at hbound
        | cons _ bound =>
            simp only [manyWithin, bind_apply, kind, andThen_accepted]
            split
            · rename_i calls
              simp only [bind_apply]
              cases hitem : item stream with
              | refused reason rest => rfl
              | accepted value rest =>
                  -- the round took a token, so both bounds are still long enough
                  have := h.length_lt ends calls hitem
                  simp only [List.length_cons] at hleast hbound
                  simp only [andThen_accepted, bind_apply]
                  rw [ih bound rest (h.terminated ends calls hitem) (by omega) (by omega)]
            · rfl
  exact gen stream.toList bound stream ends (by simp [TokenStream.toList]) enough

/-- Repetition of a parser that takes tokens: a round and further repetition while the current
token calls for it, and then nothing. -/
theorem many_eq (h : item.Consumes goesOn) (ends : stream.Terminated) :
    many goesOn item stream =
      if goesOn stream.current.kind then
        (item stream).andThen fun first => do
          let others ← many goesOn item
          return first :: others
      else .accepted [] stream := by
  conv => lhs; unfold many
  simp only [TokenSource.stream_eq, TokenStream.toList, manyWithin, bind_apply, kind,
    andThen_accepted]
  split
  · rename_i calls
    simp only [bind_apply]
    cases hitem : item stream with
    | refused reason rest => rfl
    | accepted value rest =>
        simp only [andThen_accepted, bind_apply]
        rw [manyWithin_eq_many h (h.terminated ends calls hitem) (h.length_lt ends calls hitem)]
  · rfl

end Consumes

end Parse

end GrammarCatalog
