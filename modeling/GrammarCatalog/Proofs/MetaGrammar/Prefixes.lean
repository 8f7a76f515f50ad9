/-
**Parsers that keep to a language.**

A parser keeps to a language if what it takes is a word of it where it accepts, and the beginning of
a word where it refuses: the refused token is then the first one that cannot stand where it stands.
A refusal because of nesting says nothing of this kind, since it may come before the token that is
one level too deep.

Sequences keep to products and repetitions to stars.  A sequence that is refused in its first part
can be completed only if the second part has a word at all, so this is asked of the languages.

Main definitions:

* `GrammarCatalog.MetaGrammar.HasWord` — a language is not empty;
* `GrammarCatalog.MetaGrammar.Begins` — the tokens from one stream up to another begin a word of a
  language;
* `GrammarCatalog.Parse.KeepsTo` — **a parser keeps to a language** at a stream.

Main results:

* `GrammarCatalog.Parse.KeepsTo.bind`, `GrammarCatalog.Parse.keepsTo_take_bind` — sequences;
* `GrammarCatalog.Parse.keepsTo_many`, `GrammarCatalog.Parse.keepsTo_separated` — repetitions and
  lists;
* `GrammarCatalog.Parse.keepsTo_optional` — what a sign announces may be left out.
-/

import Mathlib
import GrammarCatalog.Proofs.MetaGrammar.Bodies

set_option relaxedAutoImplicit false
set_option autoImplicit false

namespace GrammarCatalog

namespace MetaGrammar

open scoped Computability

variable {language other : Language TokenKind} {s m r : TokenStream}

/-! ### Languages that are not empty -/

/-- The language has a word. -/
def HasWord (language : Language TokenKind) : Prop := ∃ word, word ∈ language

@[simp] theorem hasWord_one : HasWord 1 := ⟨[], Language.nil_mem_one⟩

@[simp] theorem hasWord_kstar : HasWord language∗ := ⟨[], Language.nil_mem_kstar _⟩

@[simp] theorem hasWord_sup : HasWord (language ⊔ other) ↔ HasWord language ∨ HasWord other := by
  rw [← add_eq_sup]
  simp only [HasWord, Language.mem_add, exists_or]

@[simp] theorem hasWord_mul : HasWord (language * other) ↔ HasWord language ∧ HasWord other := by
  constructor
  · rintro ⟨word, hword⟩
    obtain ⟨first, hfirst, second, hsecond, -⟩ := Language.mem_mul.1 hword
    exact ⟨⟨first, hfirst⟩, second, hsecond⟩
  · rintro ⟨⟨first, hfirst⟩, second, hsecond⟩
    exact ⟨_, Language.append_mem_mul hfirst hsecond⟩

theorem hasWord_token {suits : TokenKind → Bool} :
    HasWord (token suits) ↔ ∃ kind, suits kind = true :=
  ⟨fun ⟨_, kind, hkind, _⟩ => ⟨kind, hkind⟩, fun ⟨kind, hkind⟩ => ⟨[kind], kind, hkind, rfl⟩⟩

@[simp] theorem hasWord_sign (which : Punctuation) : HasWord (sign which) :=
  hasWord_token.2 ⟨_, beq_self_eq_true _⟩

@[simp] theorem hasWord_isRule : HasWord (token TokenKind.isRule) :=
  hasWord_token.2 ⟨.rule "", rfl⟩

@[simp] theorem hasWord_isName : HasWord (token TokenKind.isName) :=
  hasWord_token.2 ⟨.rule "", rfl⟩

@[simp] theorem hasWord_isString : HasWord (token TokenKind.isString) :=
  hasWord_token.2 ⟨.string "" false, rfl⟩

@[simp] theorem hasWord_isNumber : HasWord (token TokenKind.isNumber) :=
  hasWord_token.2 ⟨.number 0, rfl⟩

@[simp] theorem hasWord_optional : HasWord (optional language) := by
  simp [optional]

@[simp] theorem hasWord_listOf {separator : Punctuation} :
    HasWord (listOf separator language) ↔ HasWord language := by
  simp [listOf]

/-! ### Parts of sums -/

theorem le_of_forall_mem (h : ∀ word ∈ language, word ∈ other) : language ≤ other := h

theorem left_le_add : language ≤ language + other := by
  rw [add_eq_sup]
  exact le_sup_left

theorem right_le_add : other ≤ language + other := by
  rw [add_eq_sup]
  exact le_sup_right

theorem one_le_optional : 1 ≤ optional language := left_le_add

theorem le_optional : language ≤ optional language := right_le_add

/-! ### Beginnings of words -/

/-- The tokens of the first stream up to the second begin a word of the language. -/
def Begins (language : Language TokenKind) (s r : TokenStream) : Prop :=
  ∃ taken more, s = r.prepend taken ∧ taken.map Token.kind ++ more ∈ language

theorem HasWord.begins (h : HasWord language) : Begins language s s :=
  h.elim fun word hword => ⟨[], word, rfl, hword⟩

theorem Spells.mono (h : Spells language s r) (hle : language ≤ other) : Spells other s r :=
  h.elim fun taken ⟨hs, hword⟩ => ⟨taken, hs, hle hword⟩

theorem Begins.mono (h : Begins language s r) (hle : language ≤ other) : Begins other s r := by
  obtain ⟨taken, more, hs, hword⟩ := h
  exact ⟨taken, more, hs, hle hword⟩

/-- What begins a word can be completed by a word of another language. -/
theorem Begins.mul_right (h : Begins language s r) (hword : HasWord other) :
    Begins (language * other) s r := by
  obtain ⟨taken, more, hs, hfirst⟩ := h
  obtain ⟨second, hsecond⟩ := hword
  refine ⟨taken, more ++ second, hs, ?_⟩
  rw [← List.append_assoc]
  exact Language.append_mem_mul hfirst hsecond

/-- Behind a word, a word of another language begins. -/
theorem Spells.begins_mul (h : Spells language s m) (h' : Begins other m r) :
    Begins (language * other) s r := by
  obtain ⟨first, rfl, hfirst⟩ := h
  obtain ⟨second, more, rfl, hsecond⟩ := h'
  refine ⟨first ++ second, more, (TokenStream.prepend_append ..).symm, ?_⟩
  rw [List.map_append, List.append_assoc]
  exact Language.append_mem_mul hfirst hsecond

theorem Spells.terminated (h : Spells language s r) (hs : s.Terminated) : r.Terminated := by
  obtain ⟨taken, rfl, -⟩ := h
  exact hs.of_suffix ⟨taken, (TokenStream.toList_prepend ..).symm⟩

end MetaGrammar

namespace Parse

open scoped Computability
open MetaGrammar

variable {α β : Type} {parser item : Parse TokenStream α} {next : α → Parse TokenStream β}
  {language other : Language TokenKind} {s m : TokenStream}

/-- **A parser keeps to a language** at a stream: it takes a word of the language, or begins one and
refuses the token behind, unless the nesting is too deep. -/
def KeepsTo (parser : Parse TokenStream α) (language : Language TokenKind) (s : TokenStream) :
    Prop :=
  match parser s with
  | .accepted _ r => Spells language s r
  | .refused reason r => reason ≠ .nestedTooDeeply → Begins language s r

theorem KeepsTo.of_accepted {value : α} {r : TokenStream} (haccepted : parser s = .accepted value r)
    (h : Spells language s r) : parser.KeepsTo language s := by
  rwa [KeepsTo, haccepted]

theorem KeepsTo.of_refused {reason : Refusal} {r : TokenStream}
    (hrefused : parser s = .refused reason r)
    (h : reason ≠ .nestedTooDeeply → Begins language s r) : parser.KeepsTo language s := by
  rwa [KeepsTo, hrefused]

/-- Where parsers do the same, they keep to the same languages. -/
theorem KeepsTo.congr {other : Parse TokenStream α} (h : other.KeepsTo language s)
    (heq : parser s = other s) : parser.KeepsTo language s := by
  rwa [KeepsTo, heq]

theorem KeepsTo.spells (h : parser.KeepsTo language s) {value : α} {r : TokenStream}
    (haccepted : parser s = .accepted value r) : Spells language s r := by
  rwa [KeepsTo, haccepted] at h

theorem KeepsTo.begins (h : parser.KeepsTo language s) {reason : Refusal} {r : TokenStream}
    (hrefused : parser s = .refused reason r) (hreason : reason ≠ .nestedTooDeeply) :
    Begins language s r := by
  rw [KeepsTo, hrefused] at h
  exact h hreason

theorem KeepsTo.mono (h : parser.KeepsTo language s) (hle : language ≤ other) :
    parser.KeepsTo other s := by
  cases houtcome : parser s with
  | accepted value r => exact .of_accepted houtcome ((h.spells houtcome).mono hle)
  | refused reason r =>
      exact .of_refused houtcome fun hreason => (h.begins houtcome hreason).mono hle

/-! ### Tokens -/

theorem keepsTo_pure (value : α) : (pure value : Parse TokenStream α).KeepsTo 1 s :=
  spells_one.2 rfl

theorem keepsTo_refuse (reason : Refusal) (h : HasWord language) :
    (refuse reason : Parse TokenStream α).KeepsTo language s := fun _ => h.begins

/-- What is nested too deeply may be part of anything. -/
theorem keepsTo_tooDeep : (tooDeep : Parse TokenStream α).KeepsTo language s :=
  fun h => absurd rfl h

theorem keepsTo_unexpected (expected : Expectation) (h : HasWord language) :
    (unexpected expected : Parse TokenStream α).KeepsTo language s := by
  simp only [KeepsTo, unexpected, TokenSource.stream_eq]
  cases s.current.kind <;> exact fun _ => h.begins

theorem keepsTo_expect {expected : Expectation} {suits : TokenKind → Bool} (hs : s.Terminated)
    (hend : suits .endOfInput = false) (h : HasWord (token suits)) :
    (expect expected suits).KeepsTo (token suits) s := by
  by_cases hsuits : suits s.current.kind = true
  · obtain ⟨t, m, rfl, -⟩ := hs.exists_cons fun hkind => by simp [hkind, hend] at hsuits
    exact .of_accepted (expect_cons hsuits) (spells_token.2 ⟨t, hsuits, rfl⟩)
  · exact (keepsTo_unexpected expected h).congr (by simp [expect, hsuits])

theorem keepsTo_sign (which : Punctuation) (hs : s.Terminated) :
    (Parse.sign which).KeepsTo (MetaGrammar.sign which) s :=
  keepsTo_expect hs rfl (hasWord_sign which)

theorem keepsTo_ruleName (hs : s.Terminated) : ruleName.KeepsTo (token TokenKind.isRule) s := by
  rw [ruleName_eq]
  exact keepsTo_expect hs rfl hasWord_isRule

theorem keepsTo_name (hs : s.Terminated) : name.KeepsTo (token TokenKind.isName) s := by
  rw [name_eq]
  exact keepsTo_expect hs rfl hasWord_isName

theorem keepsTo_number (hs : s.Terminated) : number.KeepsTo (token TokenKind.isNumber) s := by
  rw [number_eq]
  exact keepsTo_expect hs rfl hasWord_isNumber

/-! ### Sequences -/

/-- What goes on behind a word keeps to a product. -/
theorem KeepsTo.behind {parser' : Parse TokenStream β} (h : parser'.KeepsTo other m)
    (hspells : Spells language s m) {parser : Parse TokenStream β} (heq : parser s = parser' m) :
    parser.KeepsTo (language * other) s := by
  cases houtcome : parser' m with
  | accepted value r =>
      exact .of_accepted (heq.trans houtcome) (spells_mul.2 ⟨m, hspells, h.spells houtcome⟩)
  | refused reason r =>
      exact .of_refused (heq.trans houtcome) fun hreason =>
        hspells.begins_mul (h.begins houtcome hreason)

/-- A sequence that is refused in its first part, or goes on behind it. -/
theorem KeepsTo.andThen (h : parser.KeepsTo language s)
    (hbegins : ∀ r, Begins language s r → Begins other s r)
    (hnext : ∀ value m, parser s = .accepted value m → (parser >>= next).KeepsTo other s) :
    (parser >>= next).KeepsTo other s := by
  cases houtcome : parser s with
  | accepted value m => exact hnext value m houtcome
  | refused reason r =>
      have hrefused : (parser >>= next) s = .refused reason r := by rw [bind_apply, houtcome]; rfl
      exact .of_refused hrefused fun hreason => hbegins r (h.begins houtcome hreason)

/-- A sequence keeps to a product. -/
theorem KeepsTo.bind (h : parser.KeepsTo language s) (hword : HasWord other) (hs : s.Terminated)
    (hnext : ∀ value m, m.Terminated → (next value).KeepsTo other m) :
    (parser >>= next).KeepsTo (language * other) s := by
  refine h.andThen (fun r hr => hr.mul_right hword) fun value m houtcome => ?_
  have hspells := h.spells houtcome
  exact (hnext value m (hspells.terminated hs)).behind hspells (by rw [bind_apply, houtcome]; rfl)

/-- What is made of a value changes nothing. -/
theorem KeepsTo.map (h : parser.KeepsTo language s) (hs : s.Terminated) (make : α → β) :
    (parser >>= fun value => pure (make value)).KeepsTo language s := by
  rw [← mul_one language]
  exact h.bind hasWord_one hs fun value _ _ => keepsTo_pure (make value)

theorem keepsTo_current_bind {next : Token → Parse TokenStream β}
    (h : (next s.current).KeepsTo language s) : (current >>= next).KeepsTo language s := h

theorem keepsTo_kind_bind {next : TokenKind → Parse TokenStream β}
    (h : (next s.current.kind).KeepsTo language s) : (kind >>= next).KeepsTo language s := h

/-- A token is taken, and what follows keeps to the rest of a product. -/
theorem keepsTo_take_bind {next : Token → Parse TokenStream β} {suits : TokenKind → Bool}
    (hs : s.Terminated) (hkind : suits s.current.kind = true) (hend : suits .endOfInput = false)
    (h : ∀ t m, m.Terminated → suits t.kind = true → (next t).KeepsTo language m) :
    (take >>= next).KeepsTo (token suits * language) s := by
  obtain ⟨t, m, rfl, hm⟩ := hs.exists_cons fun heq => by simp [heq, hend] at hkind
  exact (h t m hm hkind).behind (spells_token.2 ⟨t, hkind, rfl⟩) rfl

theorem keepsTo_take_map {suits : TokenKind → Bool} (hs : s.Terminated)
    (hkind : suits s.current.kind = true) (hend : suits .endOfInput = false) (make : Token → β) :
    (take >>= fun t => pure (make t)).KeepsTo (token suits) s := by
  rw [← mul_one (token suits)]
  exact keepsTo_take_bind hs hkind hend fun t _ _ _ => keepsTo_pure (make t)

/-- A sign is taken, and what follows keeps to the rest of a product. -/
theorem keepsTo_sign_bind {next : Token → Parse TokenStream β} {which : Punctuation}
    (hs : s.Terminated) (hkind : s.current.kind = .punctuation which)
    (h : ∀ t m, m.Terminated → t.kind = .punctuation which → (next t).KeepsTo language m) :
    (take >>= next).KeepsTo (MetaGrammar.sign which * language) s :=
  keepsTo_take_bind hs (by simpa using hkind) rfl fun t m hm ht => h t m hm (by simpa using ht)

/-- What a sign announces may be left out. -/
theorem keepsTo_optional {which : Punctuation} {next : Token → Parse TokenStream α} {value : α}
    (hs : s.Terminated) (h : ∀ t m, m.Terminated → (next t).KeepsTo language m) :
    KeepsTo (do if (← kind) == .punctuation which then take >>= next else pure value)
      (MetaGrammar.optional (MetaGrammar.sign which * language)) s := by
  change KeepsTo (if s.current.kind == .punctuation which then take >>= next else pure value) _ s
  split
  · rename_i hkind
    exact (keepsTo_sign_bind hs (by simpa using hkind) fun t m hm _ => h t m hm).mono le_optional
  · exact (keepsTo_pure value).mono one_le_optional

/-! ### Repetitions -/

/-- A repetition keeps to a star if its rounds keep to the language. -/
theorem keepsTo_manyWithin {goesOn : TokenKind → Bool}
    (h : ∀ s, s.Terminated → goesOn s.current.kind = true → item.KeepsTo language s)
    (bound : List Token) (hs : s.Terminated) :
    (manyWithin goesOn item bound).KeepsTo language∗ s := by
  induction bound generalizing s with
  | nil => exact (keepsTo_pure []).mono one_le_kstar
  | cons _ bound ih =>
      change KeepsTo (if goesOn s.current.kind then _ else pure []) _ s
      split
      · rename_i calls
        refine KeepsTo.mono ?_ mul_kstar_le_kstar
        exact (h s hs calls).bind hasWord_kstar hs fun first m hm => (ih hm).map hm _
      · exact (keepsTo_pure []).mono one_le_kstar

theorem keepsTo_many {goesOn : TokenKind → Bool}
    (h : ∀ s, s.Terminated → goesOn s.current.kind = true → item.KeepsTo language s)
    (hs : s.Terminated) : (many goesOn item).KeepsTo language∗ s := keepsTo_manyWithin h _ hs

/-- A list keeps to a list of what its parts keep to. -/
theorem keepsTo_separated {separator : Punctuation}
    (h : ∀ s, s.Terminated → item.KeepsTo language s) (hs : s.Terminated) :
    (separated separator item).KeepsTo (listOf separator language) s := by
  refine (h s hs).bind hasWord_kstar hs fun first m hm => ?_
  refine (keepsTo_many (fun s hs calls => ?_) hm).map hm _
  exact keepsTo_sign_bind hs (by simpa using calls) fun _ m hm _ => h m hm

end Parse

end GrammarCatalog
