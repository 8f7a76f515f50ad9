/-
**Streams that spell a word of a language.**

A parser goes from one stream of tokens to a later one.  The tokens it passes on the way spell a
word, and the operations on languages become statements on streams: a product is spelled by way of
a stream between, and a star by going on from stream to stream.

Main definitions:

* `GrammarCatalog.TokenStream.cons`, `GrammarCatalog.TokenStream.prepend` — a stream with tokens
  put in front of it;
* `GrammarCatalog.MetaGrammar.Spells` — the tokens from one stream up to another spell a word of
  a language.

Main results:

* `GrammarCatalog.TokenStream.Terminated.eq_cons` — a stream is its current token in front of the
  stream past it, unless that token is the end of the text;
* `GrammarCatalog.MetaGrammar.spells_mul`, `GrammarCatalog.MetaGrammar.spells_kstar`,
  `GrammarCatalog.MetaGrammar.spells_listOf` — products, repetitions and lists;
* `GrammarCatalog.MetaGrammar.Spells.kstar_induction`,
  `GrammarCatalog.MetaGrammar.Spells.listOf_induction` — induction along a repetition or a list.
-/

import GrammarCatalog.Proofs.MetaGrammar.Language

set_option relaxedAutoImplicit false
set_option autoImplicit false

namespace GrammarCatalog

/-! ### Tokens in front of a stream -/

namespace TokenStream

theorem toList_injective {stream other : TokenStream} (h : stream.toList = other.toList) :
    stream = other := by
  obtain ⟨current, ahead⟩ := stream
  obtain ⟨current', ahead'⟩ := other
  simpa [toList] using h

/-- The stream with one more token in front. -/
def cons (token : Token) (stream : TokenStream) : TokenStream := ⟨token, stream.toList⟩

@[simp] theorem current_cons (token : Token) (stream : TokenStream) :
    (stream.cons token).current = token := rfl

@[simp] theorem advance_cons (token : Token) (stream : TokenStream) :
    (stream.cons token).advance = stream := rfl

@[simp] theorem toList_cons (token : Token) (stream : TokenStream) :
    (stream.cons token).toList = token :: stream.toList := rfl

/-- Past any token but the end of the text there is a stream. -/
theorem Terminated.eq_cons {stream : TokenStream} (h : stream.Terminated)
    (hkind : stream.current.kind ≠ .endOfInput) :
    stream = stream.advance.cons stream.current :=
  toList_injective (h.toList_eq hkind)

theorem Terminated.of_cons {token : Token} {stream : TokenStream}
    (h : (stream.cons token).Terminated) : stream.Terminated :=
  h.of_suffix (List.suffix_cons _ _)

/-- The stream with more tokens in front. -/
def prepend (stream : TokenStream) (taken : List Token) : TokenStream := taken.foldr cons stream

@[simp] theorem prepend_nil (stream : TokenStream) : stream.prepend [] = stream := rfl

@[simp] theorem prepend_cons (token : Token) (taken : List Token) (stream : TokenStream) :
    stream.prepend (token :: taken) = (stream.prepend taken).cons token := rfl

theorem prepend_append (first second : List Token) (stream : TokenStream) :
    stream.prepend (first ++ second) = (stream.prepend second).prepend first :=
  List.foldr_append

@[simp] theorem toList_prepend (taken : List Token) (stream : TokenStream) :
    (stream.prepend taken).toList = taken ++ stream.toList := by
  induction taken with
  | nil => rfl
  | cons token taken ih => simp [ih]

/-- What stands in front of a stream can be told. -/
theorem prepend_cancel {r : TokenStream} {first second : List Token}
    (h : r.prepend first = r.prepend second) : first = second := by
  have hlist := congrArg toList h
  rw [toList_prepend, toList_prepend] at hlist
  exact List.append_cancel_right hlist

end TokenStream

/-! ### Spelling a word -/

namespace MetaGrammar

open scoped Computability

/-- The tokens of the first stream up to the second spell a word of the language. -/
def Spells (language : Language TokenKind) (stream rest : TokenStream) : Prop :=
  ∃ taken, stream = rest.prepend taken ∧ taken.map Token.kind ∈ language

variable {language other : Language TokenKind} {stream rest : TokenStream}

@[simp] theorem spells_one : Spells 1 stream rest ↔ stream = rest := by
  constructor
  · rintro ⟨taken, rfl, hword⟩
    rw [List.map_eq_nil_iff.1 ((Language.mem_one _).1 hword)]
    rfl
  · rintro rfl
    exact ⟨[], rfl, Language.nil_mem_one⟩

@[simp] theorem spells_add :
    Spells (language + other) stream rest ↔
      Spells language stream rest ∨ Spells other stream rest := by
  constructor
  · rintro ⟨taken, hstream, hword⟩
    rcases (Language.mem_add _ _ _).1 hword with hword | hword
    · exact Or.inl ⟨taken, hstream, hword⟩
    · exact Or.inr ⟨taken, hstream, hword⟩
  · rintro (⟨taken, hstream, hword⟩ | ⟨taken, hstream, hword⟩)
    · exact ⟨taken, hstream, (Language.mem_add _ _ _).2 (Or.inl hword)⟩
    · exact ⟨taken, hstream, (Language.mem_add _ _ _).2 (Or.inr hword)⟩

/-- A product is spelled by way of a stream between its factors. -/
@[simp] theorem spells_mul :
    Spells (language * other) stream rest ↔
      ∃ between, Spells language stream between ∧ Spells other between rest := by
  constructor
  · rintro ⟨taken, rfl, hword⟩
    obtain ⟨left, hleft, right, hright, heq⟩ := Language.mem_mul.1 hword
    obtain ⟨first, second, rfl, rfl, rfl⟩ := List.map_eq_append_iff.1 heq.symm
    exact ⟨rest.prepend second, ⟨first, TokenStream.prepend_append .., hleft⟩, second, rfl, hright⟩
  · rintro ⟨_, ⟨first, rfl, hfirst⟩, second, rfl, hsecond⟩
    refine ⟨first ++ second, (TokenStream.prepend_append ..).symm, ?_⟩
    rw [List.map_append]
    exact Language.append_mem_mul hfirst hsecond

@[simp] theorem spells_token {suits : TokenKind → Bool} :
    Spells (token suits) stream rest ↔ ∃ t, suits t.kind = true ∧ stream = rest.cons t := by
  constructor
  · rintro ⟨taken, rfl, kind, hkind, hword⟩
    obtain ⟨t, rfl, rfl⟩ := List.map_eq_singleton_iff.1 hword
    exact ⟨t, hkind, rfl⟩
  · rintro ⟨t, hkind, rfl⟩
    exact ⟨[t], rfl, t.kind, hkind, rfl⟩

@[simp] theorem spells_sign {which : Punctuation} :
    Spells (sign which) stream rest ↔
      ∃ t, t.kind = .punctuation which ∧ stream = rest.cons t := by
  simp [sign]

@[simp] theorem spells_optional :
    Spells (optional language) stream rest ↔ stream = rest ∨ Spells language stream rest := by
  rw [optional, spells_add, spells_one]

/-! ### Repetitions and lists -/

/-- A repetition is empty, or goes on behind its first part. -/
theorem spells_kstar :
    Spells language∗ stream rest ↔
      stream = rest ∨
        ∃ between, Spells language stream between ∧ Spells language∗ between rest := by
  rw [← spells_mul, ← spells_one, ← spells_add, Language.one_add_self_mul_kstar_eq_kstar]

/-- Induction along a repetition, from its end. -/
theorem Spells.kstar_induction {motive : TokenStream → Prop} (h : Spells language∗ stream rest)
    (last : motive rest)
    (first : ∀ stream between, Spells language stream between → motive between → motive stream) :
    motive stream := by
  obtain ⟨taken, rfl, hword⟩ := h
  obtain ⟨words, hwords, hall⟩ := Language.mem_kstar.1 hword
  -- induction on the parts that the repetition consists of
  induction words generalizing taken with
  | nil => simpa [List.map_eq_nil_iff.1 hwords] using last
  | cons word words ih =>
      rw [List.flatten_cons] at hwords
      obtain ⟨front, back, rfl, hfront, hback⟩ := List.map_eq_append_iff.1 hwords
      rw [TokenStream.prepend_append]
      refine first _ (rest.prepend back) ⟨front, rfl, ?_⟩ ?_
      · rw [hfront]
        exact hall word List.mem_cons_self
      · refine ih back ?_ hback fun other hother => hall other (List.mem_cons_of_mem _ hother)
        rw [hback]
        exact Language.join_mem_kstar fun other hother => hall other (List.mem_cons_of_mem _ hother)

/-- A list is one part, or goes on behind a separator. -/
theorem spells_listOf {separator : Punctuation} :
    Spells (listOf separator language) stream rest ↔
      Spells language stream rest ∨
        ∃ t between, t.kind = .punctuation separator ∧
          Spells language stream (between.cons t) ∧
          Spells (listOf separator language) between rest := by
  simp only [listOf, spells_mul]
  constructor
  · rintro ⟨after, hfirst, hrest⟩
    rw [spells_kstar] at hrest
    rcases hrest with rfl | ⟨next, hnext, hrest⟩
    · exact Or.inl hfirst
    · obtain ⟨between, hsign, hpart⟩ := spells_mul.1 hnext
      obtain ⟨t, ht, rfl⟩ := spells_sign.1 hsign
      exact Or.inr ⟨t, between, ht, hfirst, next, hpart, hrest⟩
  · rintro (hfirst | ⟨t, between, ht, hfirst, next, hpart, hrest⟩)
    · exact ⟨rest, hfirst, spells_kstar.2 (Or.inl rfl)⟩
    · refine ⟨between.cons t, hfirst, spells_kstar.2 (Or.inr ⟨next, ?_, hrest⟩)⟩
      exact spells_mul.2 ⟨between, spells_sign.2 ⟨t, ht, rfl⟩, hpart⟩

/-- Induction along a list, from its last part. -/
theorem Spells.listOf_induction {separator : Punctuation} {motive : TokenStream → Prop}
    (h : Spells (listOf separator language) stream rest)
    (last : ∀ stream, Spells language stream rest → motive stream)
    (first : ∀ stream t between, t.kind = .punctuation separator →
      Spells language stream (between.cons t) → motive between → motive stream) :
    motive stream := by
  obtain ⟨after, hfirst, hrest⟩ := spells_mul.1 h
  -- the motive for what stands behind a part: it is the end, or a list follows a separator
  have hrest := hrest.kstar_induction
    (motive := fun after => ∀ stream, Spells language stream after → motive stream) last ?_
  · exact hrest stream hfirst
  · intro after next hnext ih stream hpart
    obtain ⟨between, hsign, hbetween⟩ := spells_mul.1 hnext
    obtain ⟨t, ht, rfl⟩ := spells_sign.1 hsign
    exact first stream t between ht hpart (ih between hbetween)

end MetaGrammar

end GrammarCatalog
