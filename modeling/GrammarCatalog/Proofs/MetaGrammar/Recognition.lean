/-
**Parsers that recognize a relation.**

A parser recognizes a relation between two streams and a value if it accepts only what is related,
and all that is related, provided that the token behind does not extend what was parsed.  The
proviso is what one token of lookahead can promise.

Repetitions and lists are handled once for all: an accepted run of them is a round after the other,
and rounds can be put together to an accepted run.

Main definitions:

* `GrammarCatalog.Parse.Recognizes` — a parser accepts exactly what a relation relates;
* `GrammarCatalog.Parse.Passes` — what a parser takes, it takes from the front of the stream.

Main results:

* `GrammarCatalog.Parse.many_induction`, `GrammarCatalog.Parse.separated_induction` — induction
  along the rounds of a repetition or a list;
* `GrammarCatalog.Parse.many_of_round`, `GrammarCatalog.Parse.separated_of_round` — one more round
  in front.
-/

import GrammarCatalog.Proofs.MetaGrammar.Derivation

set_option relaxedAutoImplicit false
set_option autoImplicit false

namespace GrammarCatalog

namespace Parse

variable {α β : Type} {s m r : TokenStream}

/-! ### The current token -/

@[simp] theorem take_apply : take s = .accepted s.current s.advance := rfl

@[simp] theorem kind_apply : kind s = .accepted s.current.kind s := rfl

@[simp] theorem current_apply : current s = .accepted s.current s := rfl

/-- To look at the current token takes nothing. -/
theorem kind_bind_apply (next : TokenKind → Parse TokenStream β) :
    (kind >>= next) s = next s.current.kind s :=
  rfl

theorem take_bind_cons (next : Token → Parse TokenStream β) (t : Token) (s : TokenStream) :
    (take >>= next) (s.cons t) = next t s := by
  rw [bind_apply, take_apply, andThen_accepted, TokenStream.current_cons, TokenStream.advance_cons]

@[simp] theorem refuse_apply (reason : Refusal) :
    (refuse reason : Parse TokenStream α) s = .refused reason s := rfl

theorem unexpected_ne_accepted (expected : Expectation) (value : α) (rest : TokenStream) :
    (unexpected expected : Parse TokenStream α) s ≠ .accepted value rest := by
  unfold unexpected
  split <;> simp

theorem if_apply {condition : Prop} [Decidable condition] (parser other : Parse TokenStream α) :
    (if condition then parser else other) s = if condition then parser s else other s := by
  split <;> rfl

/-- A sequence accepts what its parts accept one after the other. -/
theorem bind_eq_accepted_iff {parser : Parse TokenStream α} {next : α → Parse TokenStream β}
    {value : β} :
    (parser >>= next) s = .accepted value r ↔
      ∃ first m, parser s = .accepted first m ∧ next first m = .accepted value r := by
  rw [bind_apply]
  cases parser s with
  | accepted first m => simp
  | refused reason m => simp

/-- A token that is not expected of the end of the text is taken from the front. -/
theorem accepted_of_expect {expected : Expectation} {suits : TokenKind → Bool} {t : Token}
    (hs : s.Terminated) (hend : suits .endOfInput = false)
    (h : expect expected suits s = .accepted t r) : suits t.kind = true ∧ s = r.cons t := by
  simp only [expect, bind_apply, kind_apply, andThen_accepted] at h
  split at h
  · rename_i hsuits
    simp only [take_apply, Outcome.accepted.injEq] at h
    obtain ⟨rfl, rfl⟩ := h
    refine ⟨hsuits, hs.eq_cons ?_⟩
    intro hkind
    rw [hkind, hend] at hsuits
    contradiction
  · exact absurd h (unexpected_ne_accepted _ _ _)

/-- A token that is expected is taken. -/
theorem expect_cons {expected : Expectation} {suits : TokenKind → Bool} {t : Token}
    (ht : suits t.kind = true) : expect expected suits (r.cons t) = .accepted t r := by
  simp [expect, ht]

theorem accepted_of_sign {which : Punctuation} {t : Token} (hs : s.Terminated)
    (h : sign which s = .accepted t r) : t.kind = .punctuation which ∧ s = r.cons t := by
  obtain ⟨ht, heq⟩ := accepted_of_expect hs rfl h
  exact ⟨by simpa using ht, heq⟩

theorem sign_cons {which : Punctuation} {t : Token} (ht : t.kind = .punctuation which) :
    sign which (r.cons t) = .accepted t r := expect_cons (by simp [ht])

theorem ruleName_eq : (ruleName : Parse TokenStream Token) = expect .ruleName TokenKind.isRule := by
  unfold ruleName
  congr 1
  funext kind
  cases kind <;> rfl

theorem name_eq : (name : Parse TokenStream Token) = expect .name TokenKind.isName := by
  unfold name
  congr 1
  funext kind
  cases kind <;> rfl

theorem number_eq : (number : Parse TokenStream Token) = expect .number TokenKind.isNumber := rfl

theorem accepted_of_ruleName {t : Token} (hs : s.Terminated) (h : ruleName s = .accepted t r) :
    t.kind.isRule = true ∧ s = r.cons t := by
  rw [ruleName_eq] at h
  exact accepted_of_expect hs rfl h

theorem ruleName_cons {t : Token} (ht : t.kind.isRule = true) :
    ruleName (r.cons t) = .accepted t r := by
  rw [ruleName_eq]
  exact expect_cons ht

theorem accepted_of_name {t : Token} (hs : s.Terminated) (h : name s = .accepted t r) :
    t.kind.isName = true ∧ s = r.cons t := by
  rw [name_eq] at h
  exact accepted_of_expect hs rfl h

theorem name_cons {t : Token} (ht : t.kind.isName = true) :
    name (r.cons t) = .accepted t r := by
  rw [name_eq]
  exact expect_cons ht

theorem accepted_of_number {t : Token} (hs : s.Terminated) (h : number s = .accepted t r) :
    t.kind.isNumber = true ∧ s = r.cons t := by
  rw [number_eq] at h
  exact accepted_of_expect hs rfl h

theorem number_cons {t : Token} (ht : t.kind.isNumber = true) :
    number (r.cons t) = .accepted t r := by
  rw [number_eq]
  exact expect_cons ht

/-! ### Recognizing a relation -/

/-- What a parser takes, it takes from the front of the stream. -/
def Passes (parser : Parse TokenStream α) : Prop :=
  ∀ s value r, s.Terminated → parser s = .accepted value r → r.toList <:+ s.toList

/-- A parser accepts only what is related, and all that is related and that the token behind does
not extend. -/
structure Recognizes (parser : Parse TokenStream α) (derives : TokenStream → TokenStream → α → Prop)
    (extended : TokenKind → Bool) : Prop where
  /-- What is accepted is related. -/
  sound {s r : TokenStream} {value : α} :
    s.Terminated → parser s = .accepted value r → derives s r value
  /-- What is related is accepted, unless the token behind extends it. -/
  complete {s r : TokenStream} {value : α} :
    s.Terminated → derives s r value → extended r.current.kind = false →
      parser s = .accepted value r

theorem Recognizes.passes {parser : Parse TokenStream α}
    {derives : TokenStream → TokenStream → α → Prop} {extended : TokenKind → Bool}
    (h : parser.Recognizes derives extended)
    (hderives : ∀ s r value, derives s r value → r.toList <:+ s.toList) : parser.Passes :=
  fun _ _ _ hs haccepted => hderives _ _ _ (h.sound hs haccepted)

/-! ### Repetitions -/

variable {goesOn : TokenKind → Bool} {item : Parse TokenStream α}

theorem many_of_stop (h : goesOn s.current.kind = false) :
    many goesOn item s = .accepted [] s := by
  simp [many, TokenStream.toList, manyWithin, h]

/-- One more round in front of a repetition. -/
theorem many_of_round (hitem : item.Consumes goesOn) {first : α} {others : List α}
    (hs : s.Terminated) (calls : goesOn s.current.kind = true)
    (hfirst : item s = .accepted first m) (hothers : many goesOn item m = .accepted others r) :
    many goesOn item s = .accepted (first :: others) r := by
  simp [many_eq hitem hs, calls, hfirst, hothers]

/-- **Induction along the rounds of a repetition**, from its end. -/
theorem many_induction (hitem : item.Consumes goesOn) {motive : TokenStream → List α → Prop}
    (stop : goesOn r.current.kind = false → motive r [])
    (round : ∀ s first m others, s.Terminated → goesOn s.current.kind = true →
      item s = .accepted first m → motive m others → motive s (first :: others))
    {values : List α} (hs : s.Terminated) (h : many goesOn item s = .accepted values r) :
    motive s values := by
  -- every round leaves fewer tokens ahead
  induction hlen : s.ahead.length using Nat.strong_induction_on generalizing s values with
  | _ _ ih =>
      subst hlen
      rw [many_eq hitem hs] at h
      split at h
      · rename_i calls
        cases hfirst : item s with
        | refused reason m => simp [hfirst] at h
        | accepted first m =>
            rw [hfirst, andThen_accepted, bind_eq_accepted_iff] at h
            obtain ⟨others, r', hothers, h⟩ := h
            simp only [pure_apply, Outcome.accepted.injEq] at h
            obtain ⟨rfl, rfl⟩ := h
            have hm := hitem.terminated hs calls hfirst
            have hrest := ih _ (hitem.length_lt hs calls hfirst) hm hothers rfl
            exact round s first m others hs calls hfirst hrest
      · rename_i stops
        simp only [Outcome.accepted.injEq] at h
        obtain ⟨rfl, rfl⟩ := h
        exact stop (Bool.eq_false_iff.2 stops)

/-! ### Lists with separators -/

variable {separator : Punctuation}

/-- A sign is called for, and is taken in front of what follows. -/
theorem consumes_separated (hitem : item.Passes) :
    Consumes (· == .punctuation separator) (do let _ ← take; item) := by
  intro s value r hs calls h
  have hkind : s.current.kind ≠ .endOfInput := by
    intro hkind
    simp [hkind] at calls
  obtain ⟨taken, htaken⟩ := hitem s.advance value r hs.advance h
  refine ⟨s.current :: taken, by simp, ?_⟩
  rw [hs.toList_eq hkind, ← htaken]
  rfl

/-- A list of one. -/
theorem separated_of_last {value : α} (hitem : item s = .accepted value r)
    (hr : r.current.kind ≠ .punctuation separator) :
    separated separator item s = .accepted [value] r := by
  have hstop : many (· == .punctuation separator) (do let _ ← take; item) r = .accepted [] r :=
    many_of_stop (by simpa using hr)
  simp [separated, hitem, hstop]

/-- One more round in front of a list. -/
theorem separated_of_round (hpasses : item.Passes) {first : α} {others : List α} {t : Token}
    (hs : (m.cons t).Terminated) (ht : t.kind = .punctuation separator)
    (hfirst : item s = .accepted first (m.cons t))
    (hothers : separated separator item m = .accepted others r) :
    separated separator item s = .accepted (first :: others) r := by
  unfold separated at hothers
  rw [bind_eq_accepted_iff] at hothers
  obtain ⟨second, m', hsecond, hothers⟩ := hothers
  rw [bind_eq_accepted_iff] at hothers
  obtain ⟨rest, m'', hrest, hothers⟩ := hothers
  simp only [pure_apply, Outcome.accepted.injEq] at hothers
  obtain ⟨rfl, rfl⟩ := hothers
  have hconsumes : Consumes (· == .punctuation separator) (do let _ ← take; item) :=
    consumes_separated hpasses
  have hround := many_of_round hconsumes hs (by simp [ht]) hsecond hrest
  simp [separated, hfirst, hround]

/-- **Induction along the rounds of a list**, from its last part. -/
theorem separated_induction (hpasses : item.Passes) {motive : TokenStream → List α → Prop}
    (last : ∀ s value, s.Terminated → item s = .accepted value r → motive s [value])
    (round : ∀ s first t m others, s.Terminated → item s = .accepted first (m.cons t) →
      t.kind = .punctuation separator → motive m others → motive s (first :: others))
    {values : List α} (hs : s.Terminated) (h : separated separator item s = .accepted values r) :
    motive s values := by
  unfold separated at h
  rw [bind_eq_accepted_iff] at h
  obtain ⟨first, m, hfirst, h⟩ := h
  rw [bind_eq_accepted_iff] at h
  obtain ⟨others, r', hothers, h⟩ := h
  simp only [pure_apply, Outcome.accepted.injEq] at h
  obtain ⟨rfl, rfl⟩ := h
  -- the motive for what stands behind a part: whatever part is put in front of it
  have hm := hs.of_suffix (hpasses s first m hs hfirst)
  refine many_induction (consumes_separated hpasses)
    (motive := fun m others => ∀ s first, s.Terminated → item s = .accepted first m →
      motive s (first :: others)) ?_ ?_ hm hothers s first hs hfirst
  · intro _ s first hs hfirst
    exact last s first hs hfirst
  · intro m second m' others hm calls hsecond ih s first hs hfirst
    have hkind : m.current.kind = .punctuation separator := by simpa using calls
    rw [hm.eq_cons (by simp [hkind])] at hfirst
    exact round s first m.current m.advance (second :: others) hs hfirst hkind
      (ih m.advance second hm.advance hsecond)

end Parse

end GrammarCatalog
