/-
**What refusals are about.**

The reason of a refusal is about the token that is refused: it names this token, or what is wrong
with it.  What the parser of a statement has taken before ends no statement, for ends are left to
the lines.  So a token that ends a statement is refused only within one, behind a token that does
not.

There is one place where a token that is none is only named, and not asked what is wrong with it:
the second string of a range.  It is due behind a string and two dots.  A parser that accepts never
stops behind two dots, so whether a range is open can be told from what the refusing parser has
taken.

Neither is a token asked for anything where it stands too deep.  A parser that accepts has closed
what it has opened, so how deep a token stands can be told from the brackets before it: each one
that is still open has taken a level, and only where more are open than there are levels is the
token refused for this.

Main definitions:

* `GrammarCatalog.Token.OpenRange` — tokens behind which the second string of a range is due;
* `GrammarCatalog.Token.openCount` — the number of brackets that are open behind some tokens;
* `GrammarCatalog.Refusal.Concerns` — a reason is about a token of a kind;
* `GrammarCatalog.Refusal.Fits` — and asks for the second string of a range where this is due, and
  speaks of the depth where the levels are used up;
* `GrammarCatalog.TokenStream.Runs` — what stands between two places ends no statement;
* `GrammarCatalog.Parse.Confined` — **a parser stays within a statement**, and refuses with a reason
  that fits the refused token;
* `GrammarCatalog.Parse.RefusedWithin` — a token is refused within a statement.

Main results:

* `GrammarCatalog.Parse.Confined.bind`, `GrammarCatalog.Parse.Confined.manyWithin` — sequences and
  repetitions of such parsers are such parsers;
* `GrammarCatalog.Parse.confined_statement` — **so is the parser of statements**;
* `GrammarCatalog.Parse.refusedWithin_grammar` — **what is refused of a text**;
* `GrammarCatalog.Tree.exists_fits_of_error` — so an error is a refusal of one of its tokens.
-/

import GrammarCatalog.Proofs.Tree.Refusals

set_option relaxedAutoImplicit false
set_option autoImplicit false

namespace GrammarCatalog

/-! ### Open ranges -/

/-- A kind that stands within statements, and is not the two dots of a range. -/
def TokenKind.isInner : TokenKind → Bool
  | newline | endOfInput | punctuation .dotDot => false
  | _ => true

theorem TokenKind.not_isString_of_isNumber {kind : TokenKind} (h : kind.isNumber = true) :
    ¬kind.isString = true := by
  cases kind <;> simp_all [isString, isNumber]

theorem TokenKind.endsStatement_of_isInner {kind : TokenKind} (h : kind.isInner = true) :
    kind.endsStatement = false := by
  cases kind <;> first | rfl | contradiction

namespace Token

/-- The last of some tokens is two dots. -/
def EndInDots (tokens : List Token) : Prop :=
  ∃ front dots, tokens = front ++ [dots] ∧ dots.kind = .punctuation .dotDot

/-- **A range is open** behind some tokens: they end in a string and two dots. -/
def OpenRange (tokens : List Token) : Prop :=
  ∃ front low dots, tokens = front ++ [low, dots] ∧ low.kind.isString = true ∧
    dots.kind = .punctuation .dotDot

variable {first second : List Token} {t low dots : Token}

theorem not_endInDots_nil : ¬EndInDots [] := by
  rintro ⟨front, dots, hempty, -⟩
  simp at hempty

theorem endInDots_concat : EndInDots (first ++ [dots]) ↔ dots.kind = .punctuation .dotDot := by
  constructor
  · rintro ⟨front, last, heq, hlast⟩
    obtain ⟨-, heq⟩ := List.append_inj' heq rfl
    rwa [List.singleton_inj.1 heq]
  · intro hdots
    exact ⟨first, dots, rfl, hdots⟩

theorem not_endInDots_concat (h : t.kind.isInner = true) : ¬EndInDots (first ++ [t]) := by
  rw [endInDots_concat]
  intro hdots
  rw [hdots] at h
  contradiction

theorem not_endInDots_singleton (h : t.kind.isInner = true) : ¬EndInDots [t] :=
  @not_endInDots_concat [] t h

theorem not_endInDots_append (hfirst : ¬EndInDots first) (hsecond : ¬EndInDots second) :
    ¬EndInDots (first ++ second) := by
  rcases List.eq_nil_or_concat second with rfl | ⟨front, last, rfl⟩
  · rwa [List.append_nil]
  · rw [List.concat_eq_append] at hsecond ⊢
    rwa [← List.append_assoc, endInDots_concat, ← endInDots_concat]

theorem OpenRange.endInDots (h : OpenRange first) : EndInDots first := by
  obtain ⟨front, low, dots, rfl, -, hdots⟩ := h
  exact ⟨front ++ [low], dots, by simp, hdots⟩

theorem openRange_concat_concat : OpenRange (first ++ [low, dots]) ↔
    low.kind.isString = true ∧ dots.kind = .punctuation .dotDot := by
  constructor
  · rintro ⟨front, low', dots', heq, hlow, hdots⟩
    obtain ⟨-, heq⟩ := List.append_inj' heq rfl
    rw [List.cons.injEq, List.cons.injEq] at heq
    obtain ⟨rfl, rfl, -⟩ := heq
    exact ⟨hlow, hdots⟩
  · rintro ⟨hlow, hdots⟩
    exact ⟨first, low, dots, rfl, hlow, hdots⟩

end Token

/-! ### Open brackets -/

/-- How many more brackets are open behind a token of a kind than before it. -/
def TokenKind.opening : TokenKind → ℤ
  | punctuation .leftParen | punctuation .leftBracket | punctuation .leftBrace => 1
  | punctuation .rightParen | punctuation .rightBracket | punctuation .rightBrace => -1
  | _ => 0

/-- A kind that stands within statements, and is neither a bracket nor the two dots of a range. -/
def TokenKind.isSimple (kind : TokenKind) : Bool := kind.isInner && kind.opening == 0

theorem TokenKind.isSimple_iff {kind : TokenKind} :
    kind.isSimple = true ↔ kind.isInner = true ∧ kind.opening = 0 := by
  rw [isSimple, Bool.and_eq_true, beq_iff_eq]

theorem TokenKind.isSimple_of_isString {kind : TokenKind} (h : kind.isString = true) :
    kind.isSimple = true := by
  cases kind <;> first | rfl | contradiction

theorem TokenKind.isSimple_of_isNumber {kind : TokenKind} (h : kind.isNumber = true) :
    kind.isSimple = true := by
  cases kind <;> first | rfl | contradiction

theorem TokenKind.isInner_of_opening {kind : TokenKind} (h : kind.opening = 1) :
    kind.isInner = true := by
  cases kind with
  | punctuation sign => cases sign <;> first | rfl | exact absurd h (by decide)
  | newline | endOfInput => exact absurd h (by decide)
  | _ => rfl

namespace Token

/-- **The number of brackets that are open** behind some tokens: those that they open, less those
that they close. -/
def openCount : List Token → ℤ
  | [] => 0
  | token :: tokens => token.kind.opening + openCount tokens

@[simp] theorem openCount_nil : openCount [] = 0 := rfl

@[simp] theorem openCount_cons (t : Token) (tokens : List Token) :
    openCount (t :: tokens) = t.kind.opening + openCount tokens := rfl

@[simp] theorem openCount_append (first second : List Token) :
    openCount (first ++ second) = openCount first + openCount second := by
  induction first with
  | nil => exact (Int.zero_add _).symm
  | cons t first ih => rw [List.cons_append, openCount_cons, openCount_cons, ih, Int.add_assoc]

end Token

/-! ### Reasons -/

/-- What is expected of a token that is well formed; a directive is mentioned by its name. -/
def Expectation.IsProper : Expectation → Prop
  | definitionAfter directive => ∃ which : Directive, directive = which.name
  | upperString => False
  | _ => True

namespace Refusal

/-- A reason is about a token of a kind.  What is wrong with a token comes before what was expected
in its place, but for the second string of a range. -/
def Concerns (reason : Refusal) (kind : TokenKind) : Prop :=
  match reason with
  | malformed cause => kind = .malformed cause
  | unexpected expected found => found = kind ∧
      (expected = .upperString ∨ expected.IsProper ∧ ∀ cause, kind ≠ .malformed cause)
  | aliasOutsideRule => kind = .punctuation .arrow
  | nestedTooDeeply => True
  | unknownDirective name => kind = .directive name

/-- A reason asks for the second string of a range. -/
def AsksForString : Refusal → Prop
  | unexpected .upperString _ => True
  | _ => False

/-- A reason is about a token of a kind behind some others.  It asks for the second string of a
range where this is due, and speaks of the depth where no level is left for what the token
begins. -/
structure Fits (reason : Refusal) (level : ℕ) (taken : List Token) (kind : TokenKind) : Prop where
  /-- It is about the token. -/
  concerns : reason.Concerns kind
  /-- It asks for a string where a range is open, wherever the tokens stand. -/
  range {before : List Token} :
    ¬Token.EndInDots before → (Token.OpenRange (before ++ taken) ↔ reason.AsksForString)
  /-- It speaks of the depth where more is open than there are levels, or would be in a group that
  the token opens. -/
  tooDeep : reason = .nestedTooDeeply → level < Token.openCount taken ∨
    level = Token.openCount taken ∧ Parse.OpensGroup kind
  /-- It speaks of anything else where no more is open than there are levels. -/
  shallow : reason ≠ .nestedTooDeeply → Token.openCount taken ≤ level

variable {reason : Refusal} {kind : TokenKind} {level inner : ℕ} {first taken : List Token}

/-- A token is refused as soon as it comes first, for another reason than its depth. -/
theorem fits_nil (h : reason.Concerns kind) (hasks : ¬reason.AsksForString)
    (hreason : reason ≠ .nestedTooDeeply) : reason.Fits level [] kind where
  concerns := h
  range {before} hbefore := by
    rw [List.append_nil]
    exact iff_of_false (fun hopen => hbefore hopen.endInDots) hasks
  tooDeep hdeep := absurd hdeep hreason
  shallow _ := Int.natCast_nonneg level

/-- What is too deep is refused for its depth, whatever it is. -/
theorem fits_nestedTooDeeply (hdots : ¬Token.EndInDots taken)
    (hdeep : level < Token.openCount taken ∨
      level = Token.openCount taken ∧ Parse.OpensGroup kind) :
    nestedTooDeeply.Fits level taken kind where
  concerns := trivial
  range {_} hbefore :=
    iff_of_false (fun hopen => Token.not_endInDots_append hbefore hdots hopen.endInDots) id
  tooDeep _ := hdeep
  shallow hreason := absurd rfl hreason

/-- A reason still fits where more has been taken before, with as many levels more as that leaves
open. -/
theorem Fits.append (h : reason.Fits inner taken kind) (hfirst : ¬Token.EndInDots first)
    (hopen : inner + Token.openCount first = level) : reason.Fits level (first ++ taken) kind where
  concerns := h.concerns
  range {before} hbefore := by
    rw [← List.append_assoc]
    exact h.range (Token.not_endInDots_append hbefore hfirst)
  tooDeep hdeep := by
    rw [Token.openCount_append]
    exact (h.tooDeep hdeep).imp (fun _ => by omega) fun ⟨_, hkind⟩ => ⟨by omega, hkind⟩
  shallow hreason := by
    have hshallow := h.shallow hreason
    rw [Token.openCount_append]
    omega

end Refusal

/-! ### Parts of statements -/

namespace TokenStream

/-- Some tokens stand between two places of a stream, and end no statement. -/
def Runs (s : TokenStream) (taken : List Token) (r : TokenStream) : Prop :=
  s = r.prepend taken ∧ ∀ t ∈ taken, t.kind.endsStatement = false

variable {s m r : TokenStream} {first second : List Token}

theorem Runs.refl (s : TokenStream) : s.Runs [] s := ⟨rfl, by simp⟩

theorem Runs.trans (h : s.Runs first m) (h' : m.Runs second r) : s.Runs (first ++ second) r := by
  obtain ⟨rfl, hfirst⟩ := h
  obtain ⟨rfl, hsecond⟩ := h'
  refine ⟨(prepend_append ..).symm, ?_⟩
  intro t ht
  rcases List.mem_append.1 ht with ht | ht
  · exact hfirst t ht
  · exact hsecond t ht

theorem Runs.terminated (h : s.Runs first r) (hs : s.Terminated) : r.Terminated := by
  refine hs.of_suffix ?_
  rw [h.1, toList_prepend]
  exact List.suffix_append _ _

theorem runs_cons {t : Token} (h : t.kind.endsStatement = false) : (r.cons t).Runs [t] r :=
  ⟨rfl, by simpa using h⟩

theorem runs_advance (hs : s.Terminated) (h : s.current.kind.endsStatement = false) :
    s.Runs [s.current] s.advance := by
  have hkind : s.current.kind ≠ .endOfInput := by
    intro hkind
    rw [hkind] at h
    contradiction
  rw [hs.eq_cons hkind]
  exact runs_cons h

end TokenStream

namespace Parse

variable {α β : Type} {parser other item : Parse TokenStream α} {next : α → Parse TokenStream β}
  {s m r : TokenStream} {level : ℕ} {change : ℤ}

/-- **A parser stays within a statement**, with some levels left: the tokens that it takes end none,
and neither does it stop behind two dots, unless it refuses.  If it accepts, so many more brackets
are open than before; and if it refuses a token, the reason fits this token. -/
def Confined (parser : Parse TokenStream α) (level : ℕ) (change : ℤ) (s : TokenStream) : Prop :=
  s.Terminated →
    match parser s with
    | .accepted _ r =>
        ∃ taken, s.Runs taken r ∧ ¬Token.EndInDots taken ∧ Token.openCount taken = change
    | .refused reason r => ∃ taken, s.Runs taken r ∧ reason.Fits level taken r.current.kind

theorem Confined.of_accepted {value : α} (h : parser.Confined level change s) (hs : s.Terminated)
    (haccepted : parser s = .accepted value r) :
    ∃ taken, s.Runs taken r ∧ ¬Token.EndInDots taken ∧ Token.openCount taken = change := by
  have h := h hs
  rwa [haccepted] at h

theorem Confined.of_refused {reason : Refusal} (h : parser.Confined level change s)
    (hs : s.Terminated) (hrefused : parser s = .refused reason r) :
    ∃ taken, s.Runs taken r ∧ reason.Fits level taken r.current.kind := by
  have h := h hs
  rwa [hrefused] at h

/-! ### Tokens and sequences -/

theorem confined_pure (value : α) : (pure value : Parse TokenStream α).Confined level 0 s :=
  fun _ => ⟨[], .refl s, Token.not_endInDots_nil, rfl⟩

theorem confined_refuse {reason : Refusal} (h : reason.Concerns s.current.kind)
    (hasks : ¬reason.AsksForString) (hreason : reason ≠ .nestedTooDeeply) :
    (refuse reason : Parse TokenStream α).Confined level change s :=
  fun _ => ⟨[], .refl s, Refusal.fits_nil h hasks hreason⟩

/-- What is refused in place of something else is refused for what is wrong with it, or because
something else was expected. -/
theorem fits_of_unexpected {expected : Expectation} {reason : Refusal} (h : expected.IsProper)
    (hrefused : (unexpected expected : Parse TokenStream α) s = .refused reason r) :
    r = s ∧ ¬reason.AsksForString ∧ ∀ level, reason.Fits level [] r.current.kind := by
  simp only [unexpected, TokenSource.stream_eq] at hrefused
  split at hrefused
  · rename_i cause hkind
    obtain ⟨rfl, rfl⟩ := Outcome.refused.inj hrefused
    exact ⟨rfl, id, fun _ => Refusal.fits_nil hkind id (by simp)⟩
  · rename_i hkind
    obtain ⟨rfl, rfl⟩ := Outcome.refused.inj hrefused
    have hasks : ¬(Refusal.unexpected expected s.current.kind).AsksForString := by
      intro hasks
      cases expected with
      | upperString => exact h
      | _ => exact hasks
    exact ⟨rfl, hasks, fun _ => Refusal.fits_nil ⟨rfl, Or.inr ⟨h, hkind⟩⟩ hasks (by simp)⟩

theorem confined_unexpected {expected : Expectation} (h : expected.IsProper) :
    (unexpected expected : Parse TokenStream α).Confined level change s := by
  intro _
  split
  · rename_i haccepted
    exact absurd haccepted (unexpected_ne_accepted _ _ _)
  · rename_i hrefused
    obtain ⟨rfl, -, hfits⟩ := fits_of_unexpected h hrefused
    exact ⟨[], .refl _, hfits level⟩

/-- A sequence goes on behind its first part, with as many levels less as that leaves open. -/
theorem Confined.andThen {first second : ℤ} {inner : ℕ} (h : parser.Confined level first s)
    (hnext : ∀ value m, (next value).Confined inner second m) (hlevel : inner + first = level)
    (hchange : first + second = change) : (parser >>= next).Confined level change s := by
  intro hs
  rw [bind_apply]
  cases houtcome : parser s with
  | refused reason r => exact h.of_refused hs houtcome
  | accepted value m =>
      obtain ⟨front, hfront, hdots, hopen⟩ := h.of_accepted hs houtcome
      have hm := hfront.terminated hs
      have hrest := hnext value m
      rw [andThen_accepted]
      cases hafter : next value m with
      | accepted result r =>
          obtain ⟨back, hback, hdots', hopen'⟩ := hrest.of_accepted hm hafter
          refine ⟨front ++ back, hfront.trans hback, Token.not_endInDots_append hdots hdots', ?_⟩
          rw [Token.openCount_append, hopen, hopen', hchange]
      | refused reason r =>
          obtain ⟨back, hback, hreason⟩ := hrest.of_refused hm hafter
          exact ⟨front ++ back, hfront.trans hback, hreason.append hdots (by rw [hopen, hlevel])⟩

/-- Behind a part that closes what it opens, as many levels are left as before. -/
theorem Confined.bind (h : parser.Confined level 0 s)
    (hnext : ∀ value m, (next value).Confined level change m) :
    (parser >>= next).Confined level change s :=
  h.andThen hnext (Int.add_zero _) (Int.zero_add _)

/-- What is made of a value changes nothing. -/
theorem Confined.map (h : parser.Confined level change s) (make : α → β) :
    (parser >>= fun value => pure (make value)).Confined level change s := by
  intro hs
  rw [bind_apply]
  cases houtcome : parser s with
  | refused reason r => exact h.of_refused hs houtcome
  | accepted value m => exact h.of_accepted hs houtcome

theorem confined_current_bind {next : Token → Parse TokenStream β}
    (h : (next s.current).Confined level change s) : (current >>= next).Confined level change s := h

theorem confined_kind_bind {next : TokenKind → Parse TokenStream β}
    (h : (next s.current.kind).Confined level change s) :
    (kind >>= next).Confined level change s := h

theorem confined_take (h : s.current.kind.isInner = true)
    (hopening : s.current.kind.opening = change) : take.Confined level change s := by
  intro hs
  refine ⟨[s.current], TokenStream.runs_advance hs (TokenKind.endsStatement_of_isInner h),
    Token.not_endInDots_singleton h, ?_⟩
  rw [Token.openCount_cons, hopening, Token.openCount_nil, Int.add_zero]

/-- A token is taken that ends no statement, and is no bracket. -/
theorem confined_take_bind {next : Token → Parse TokenStream β}
    (h : s.current.kind.isSimple = true) (hnext : ∀ t m, (next t).Confined level change m) :
    (take >>= next).Confined level change s := by
  obtain ⟨hinner, hopening⟩ := TokenKind.isSimple_iff.1 h
  exact (confined_take hinner hopening).bind hnext

/-- An opening bracket is taken, and what follows closes it one level deeper. -/
theorem confined_open_bind {next : Token → Parse TokenStream β}
    (h : s.current.kind.opening = 1) (hnext : ∀ t m, (next t).Confined level (-1) m) :
    (take >>= next).Confined (level + 1) 0 s := by
  exact (confined_take (TokenKind.isInner_of_opening h) h).andThen hnext rfl rfl

/-- Something is done where a sign stands, and something else otherwise. -/
theorem confined_ite_sign {which : Punctuation}
    (h : s.current.kind = .punctuation which → parser.Confined level change s)
    (hother : other.Confined level change s) :
    (if s.current.kind == .punctuation which then parser else other).Confined level change s := by
  split
  · rename_i hkind
    exact h (beq_iff_eq.1 hkind)
  · exact hother

theorem fits_of_expect {expected : Expectation} {suits : TokenKind → Bool} {reason : Refusal}
    (h : expected.IsProper) (hrefused : expect expected suits s = .refused reason r) :
    r = s ∧ ¬reason.AsksForString ∧ ∀ level, reason.Fits level [] r.current.kind := by
  rw [expect, kind_bind_apply] at hrefused
  split at hrefused
  · contradiction
  · exact fits_of_unexpected h hrefused

theorem confined_expect {expected : Expectation} {suits : TokenKind → Bool}
    (h : expected.IsProper)
    (hsuits : ∀ kind, suits kind = true → kind.isInner = true ∧ kind.opening = change) :
    (expect expected suits).Confined level change s := by
  refine confined_kind_bind ?_
  split
  · rename_i hkind
    obtain ⟨hinner, hopening⟩ := hsuits _ hkind
    exact confined_take hinner hopening
  · exact confined_unexpected h

theorem confined_sign {which : Punctuation} (hwhich : (TokenKind.punctuation which).isInner = true)
    (hopening : (TokenKind.punctuation which).opening = change) :
    (sign which).Confined level change s := by
  refine confined_expect trivial fun kind hkind => ?_
  rw [beq_iff_eq] at hkind
  rw [hkind]
  exact ⟨hwhich, hopening⟩

theorem confined_ruleName : ruleName.Confined level 0 s := by
  refine confined_expect trivial fun kind hkind => ?_
  cases kind with
  | rule _ => exact ⟨rfl, rfl⟩
  | _ => contradiction

theorem confined_name : name.Confined level 0 s := by
  refine confined_expect trivial fun kind hkind => ?_
  cases kind with
  | rule _ | terminal _ => exact ⟨rfl, rfl⟩
  | _ => contradiction

theorem confined_number : number.Confined level 0 s := by
  refine confined_expect trivial fun kind hkind => ?_
  cases kind with
  | number _ => exact ⟨rfl, rfl⟩
  | _ => contradiction

theorem fits_of_number {reason : Refusal} (h : number s = .refused reason r) :
    r = s ∧ ¬reason.AsksForString ∧ ∀ level, reason.Fits level [] r.current.kind :=
  have hproper : Expectation.number.IsProper := trivial
  fits_of_expect hproper h

theorem confined_refuseMalformed : refuseMalformed.Confined level 0 s := by
  refine confined_kind_bind ?_
  split
  · rename_i cause hkind
    exact confined_refuse hkind id (by simp)
  · exact confined_pure _

/-! ### Repetitions -/

/-- A repetition stays within a statement if its rounds do. -/
theorem Confined.manyWithin {goesOn : TokenKind → Bool}
    (h : ∀ m : TokenStream, goesOn m.current.kind = true → item.Confined level 0 m)
    (bound : List Token) : (manyWithin goesOn item bound).Confined level 0 s := by
  induction bound generalizing s with
  | nil => exact confined_pure _
  | cons _ bound ih =>
      refine confined_kind_bind ?_
      split
      · rename_i calls
        exact (h s calls).bind fun first m => ih.map _
      · exact confined_pure _

theorem Confined.many {goesOn : TokenKind → Bool}
    (h : ∀ m : TokenStream, goesOn m.current.kind = true → item.Confined level 0 m) :
    (many goesOn item).Confined level 0 s := Confined.manyWithin h s.toList

theorem Confined.separated {separator : Punctuation}
    (hseparator : (TokenKind.punctuation separator).isSimple = true)
    (h : ∀ m, item.Confined level 0 m) : (separated separator item).Confined level 0 s := by
  refine (h s).bind fun first m => Confined.map (Confined.many fun m calls => ?_) _
  rw [beq_iff_eq] at calls
  refine confined_take_bind ?_ fun _ m => h m
  rw [calls]
  exact hseparator

/-! ### Values and groups -/

/-- Behind a string and two dots, what is no string is refused as such. -/
theorem confined_literalString (h : s.current.kind.isString = true) :
    literalString.Confined level 0 s := by
  intro hs
  obtain ⟨low, m, rfl, hm⟩ := hs.exists_cons (by intro hkind; rw [hkind] at h; contradiction)
  obtain ⟨hlow, hopening⟩ := TokenKind.isSimple_iff.1 (TokenKind.isSimple_of_isString h)
  rw [TokenStream.current_cons] at hlow hopening
  have hfirst := TokenStream.runs_cons (r := m) (TokenKind.endsStatement_of_isInner hlow)
  rw [literalString, take_bind_cons, kind_bind_apply]
  by_cases hdots : m.current.kind = .punctuation .dotDot
  · obtain ⟨dots, r, rfl, hr⟩ := hm.exists_cons (by simp [hdots])
    rw [TokenStream.current_cons] at hdots
    have hsecond := hfirst.trans (TokenStream.runs_cons (r := r) (by rw [hdots]; rfl))
    have hopen : Token.openCount [low, dots] = 0 := by
      rw [Token.openCount_cons, hopening, Token.openCount_cons, hdots]
      rfl
    rw [TokenStream.current_cons, if_pos (beq_iff_eq.2 hdots), take_bind_cons, kind_bind_apply]
    cases hhigh : r.current.kind with
    | string text ignoreCase =>
        refine ⟨_, hsecond.trans (TokenStream.runs_advance hr (by rw [hhigh]; rfl)),
          Token.not_endInDots_concat (by rw [hhigh]; rfl), ?_⟩
        rw [Token.openCount_append, List.singleton_append, hopen, Token.openCount_cons, hhigh]
        rfl
    | _ =>
        refine ⟨_, hsecond, ⟨hhigh.symm, Or.inl rfl⟩, fun {before} _ => ?_, by simp, fun _ => ?_⟩
        · exact iff_of_true (Token.openRange_concat_concat.2 ⟨h, hdots⟩) trivial
        · exact hopen.trans_le (Int.natCast_nonneg level)
  · rw [if_neg (by simpa using hdots)]
    exact ⟨_, hfirst, Token.not_endInDots_singleton hlow, by simp [hopening]⟩

/-- The arguments of a name stand one level deeper. -/
theorem confined_ruleReference {argument : Parse TokenStream Child}
    (h : ∀ m, argument.Confined level 0 m) (hkind : s.current.kind.isSimple = true) :
    (ruleReference argument).Confined (level + 1) 0 s := by
  refine confined_take_bind hkind fun name m => confined_kind_bind ?_
  refine confined_ite_sign (fun hbrace => ?_) (confined_pure _)
  refine confined_open_bind (by rw [hbrace]; rfl) fun _ m => ?_
  exact (Confined.separated rfl h).bind fun _ m => (confined_sign rfl rfl).map _

/-- Where no level is left, the first argument is too deep. -/
theorem confined_ruleReference_tooDeep (hkind : s.current.kind.isSimple = true) :
    (ruleReference tooDeep).Confined 0 0 s := by
  refine confined_take_bind hkind fun name m => confined_kind_bind ?_
  refine confined_ite_sign (fun hbrace hm => ?_) (confined_pure _)
  have hopening : m.current.kind.opening = 1 := by rw [hbrace]; rfl
  have hinner := TokenKind.isInner_of_opening hopening
  refine ⟨[m.current], TokenStream.runs_advance hm (TokenKind.endsStatement_of_isInner hinner), ?_⟩
  exact Refusal.fits_nestedTooDeeply (Token.not_endInDots_singleton hinner)
    (Or.inl (by simp [hopening]))

theorem confined_valueWith {argument : Parse TokenStream Child}
    (h : s.current.kind.isSimple = true → (ruleReference argument).Confined level 0 s) :
    (valueWith argument).Confined level 0 s := by
  refine confined_kind_bind ?_
  split
  · rename_i hkind
    exact confined_literalString (by rw [hkind]; rfl)
  · rename_i hkind
    exact confined_take_bind (by rw [hkind]; rfl) fun _ _ => confined_pure _
  · rename_i hkind
    exact confined_take_bind (by rw [hkind]; rfl) fun _ _ => confined_pure _
  · rename_i hkind
    exact h (by rw [hkind]; rfl)
  · exact confined_unexpected trivial

theorem confined_value (depth : ℕ) : (value depth).Confined depth 0 s := by
  induction depth generalizing s with
  | zero =>
      rw [value_zero]
      exact confined_valueWith confined_ruleReference_tooDeep
  | succ depth ih =>
      rw [value_succ]
      exact confined_valueWith (confined_ruleReference fun _ => ih)

/-- The contents of a group stand one level deeper. -/
theorem confined_groupWith {body : Parse TokenStream Tree} (h : ∀ m, body.Confined level 0 m)
    (hkind : OpensGroup s.current.kind) : (groupWith body).Confined (level + 1) 0 s := by
  have hopening : s.current.kind.opening = 1 := by
    rcases hkind with hkind | hkind <;> rw [hkind] <;> rfl
  refine confined_open_bind hopening fun opening m => (h m).bind fun alternatives m => ?_
  split
  · exact (confined_sign rfl rfl).map _
  · exact (confined_sign rfl rfl).map _

/-- Where no level is left, a group is too deep. -/
theorem confined_tooDeep (hkind : OpensGroup s.current.kind) :
    (tooDeep : Parse TokenStream α).Confined 0 change s := by
  exact fun _ => ⟨[], .refl s,
    Refusal.fits_nestedTooDeeply Token.not_endInDots_nil (Or.inr ⟨rfl, hkind⟩)⟩

theorem confined_atomWith {group atom : Parse TokenStream Child}
    (hgroup : OpensGroup s.current.kind → group.Confined level 0 s)
    (hatom : atom.Confined level 0 s) : (atomWith group atom).Confined level 0 s := by
  refine confined_kind_bind ?_
  split
  · rename_i hkind
    exact hgroup (Or.inl hkind)
  · rename_i hkind
    exact hgroup (Or.inr hkind)
  · exact hatom

/-- The two dots of a repetition stand behind a number, so no range is open there. -/
theorem confined_repetition (operand : Child) (h : s.current.kind = .punctuation .tilde) :
    (repetition operand).Confined level 0 s := by
  refine confined_take_bind (by rw [h]; rfl) fun _ m hm => ?_
  rw [bind_apply]
  cases hcount : number m with
  | refused reason r => exact confined_number.of_refused hm hcount
  | accepted count r =>
  obtain ⟨hnumber, rfl⟩ := accepted_of_number hm hcount
  obtain ⟨hinner, hopening⟩ := TokenKind.isSimple_iff.1 (TokenKind.isSimple_of_isNumber hnumber)
  have hfirst := TokenStream.runs_cons (r := r) (TokenKind.endsStatement_of_isInner hinner)
  rw [andThen_accepted, kind_bind_apply]
  by_cases hdots : r.current.kind = .punctuation .dotDot
  · obtain ⟨dots, r, rfl, hr⟩ := hm.of_cons.exists_cons (by simp [hdots])
    rw [TokenStream.current_cons] at hdots
    have hsecond := hfirst.trans (TokenStream.runs_cons (r := r) (by rw [hdots]; rfl))
    have hopen : Token.openCount [count, dots] = 0 := by
      rw [Token.openCount_cons, hopening, Token.openCount_cons, hdots]
      rfl
    rw [TokenStream.current_cons, if_pos (beq_iff_eq.2 hdots), take_bind_cons, bind_apply]
    cases hupper : number r with
    | accepted upper m =>
        obtain ⟨hnumber', rfl⟩ := accepted_of_number hr hupper
        obtain ⟨hinner', hopening'⟩ :=
          TokenKind.isSimple_iff.1 (TokenKind.isSimple_of_isNumber hnumber')
        refine ⟨_, hsecond.trans
          (TokenStream.runs_cons (TokenKind.endsStatement_of_isInner hinner')),
          Token.not_endInDots_concat hinner', ?_⟩
        rw [Token.openCount_append, List.singleton_append, hopen, Token.openCount_cons, hopening']
        rfl
    | refused reason m =>
        obtain ⟨rfl, hasks, hfits⟩ := fits_of_number hupper
        have hfits := hfits level
        refine ⟨_, hsecond, hfits.concerns, fun {before} _ => ?_, fun hdeep => ?_,
          fun hreason => ?_⟩
        · refine iff_of_false (fun hopen => ?_) hasks
          obtain ⟨hlow, -⟩ := Token.openRange_concat_concat.1 hopen
          exact TokenKind.not_isString_of_isNumber hnumber hlow
        · exact hopen ▸ hfits.tooDeep hdeep
        · exact hopen ▸ hfits.shallow hreason
  · rw [if_neg (by simpa using hdots)]
    exact ⟨_, hfirst, Token.not_endInDots_singleton hinner, by simp [hopening]⟩

theorem confined_exprWith {atom : Parse TokenStream Child} (h : ∀ m, atom.Confined level 0 m) :
    (exprWith atom).Confined level 0 s := by
  refine (h s).bind fun operand m => confined_kind_bind ?_
  split
  · rename_i hkind
    exact confined_take_bind (by rw [hkind]; rfl) fun _ _ => confined_pure _
  · rename_i hkind
    exact confined_take_bind (by rw [hkind]; rfl) fun _ _ => confined_pure _
  · rename_i hkind
    exact confined_take_bind (by rw [hkind]; rfl) fun _ _ => confined_pure _
  · rename_i hkind
    exact confined_repetition _ hkind
  · exact confined_pure _

/-! ### Alternatives -/

theorem confined_expansionWith {item : Parse TokenStream Child}
    (h : ∀ m, item.Confined level 0 m) : (expansionWith item).Confined level 0 s :=
  confined_current_bind ((Confined.many fun m _ => h m).bind fun _ _ =>
    confined_refuseMalformed.map _)

theorem confined_alternativeWith {aliases : Bool} {item : Parse TokenStream Child}
    (h : ∀ m, item.Confined level 0 m) : (alternativeWith aliases item).Confined level 0 s := by
  refine (confined_expansionWith h).bind fun expansion m => confined_kind_bind ?_
  refine confined_ite_sign (fun hkind => ?_) (confined_pure _)
  split
  · refine confined_take_bind (by rw [hkind]; rfl) fun _ m => ?_
    exact confined_ruleName.map _
  · exact confined_refuse hkind id (by simp)

theorem confined_expansionsWith {aliases : Bool} {item : Parse TokenStream Child}
    (h : ∀ m, item.Confined level 0 m) : (expansionsWith aliases item).Confined level 0 s :=
  (Confined.separated rfl fun _ => confined_alternativeWith h).map _

/-- Alternatives stay within a statement if the groups in them do. -/
theorem confined_expansions_of_group {depth : ℕ} {aliases : Bool}
    (h : ∀ m : TokenStream, OpensGroup m.current.kind → (group depth).Confined depth 0 m) :
    (expansions depth aliases).Confined depth 0 s := by
  rw [expansions_eq]
  refine confined_expansionsWith fun m => confined_exprWith fun m => ?_
  exact confined_atomWith (h m) (confined_value depth)

/-- So do alternatives of some levels, with these levels left. -/
theorem confined_expansions (depth : ℕ) (aliases : Bool) :
    (expansions depth aliases).Confined depth 0 s := by
  induction depth generalizing aliases s with
  | zero =>
      refine confined_expansions_of_group fun m hkind => ?_
      rw [group_zero]
      exact confined_tooDeep hkind
  | succ depth ih =>
      refine confined_expansions_of_group fun m hkind => ?_
      rw [group_succ]
      exact confined_groupWith (fun _ => ih true) hkind

/-! ### Statements -/

theorem confined_templateParams : templateParams.Confined (level + 1) 0 s := by
  refine confined_kind_bind (confined_ite_sign (fun hkind => ?_) (confined_pure _))
  refine confined_open_bind (by rw [hkind]; rfl) fun _ m => ?_
  exact (Confined.separated rfl fun _ => confined_ruleName).bind fun _ m =>
    (confined_sign rfl rfl).map _

theorem confined_priority : priority.Confined level 0 s := by
  refine confined_kind_bind (confined_ite_sign (fun hkind => ?_) (confined_pure _))
  exact confined_take_bind (by rw [hkind]; rfl) fun _ m =>
    confined_number.map _

theorem confined_rule (h : s.current.kind.isSimple = true) : rule.Confined maxNesting 0 s := by
  refine confined_take_bind h fun _ m => confined_templateParams.bind fun _ m => ?_
  refine confined_priority.bind fun _ m => (confined_sign rfl rfl).bind fun _ m => ?_
  exact (confined_expansions _ _).map _

theorem confined_term (h : s.current.kind.isSimple = true) : term.Confined maxNesting 0 s := by
  refine confined_take_bind h fun _ m => confined_priority.bind fun _ m => ?_
  refine (confined_sign rfl rfl).bind fun _ m => ?_
  exact (confined_expansions _ _).map _

theorem confined_definition {expected : Expectation} (h : expected.IsProper) :
    (definition expected).Confined maxNesting 0 s := by
  refine confined_kind_bind ?_
  split
  · rename_i hkind
    exact confined_rule (by rw [hkind]; rfl)
  · rename_i hkind
    exact confined_term (by rw [hkind]; rfl)
  · exact confined_unexpected h

theorem confined_importPath : importPath.Confined level 0 s := by
  have hnames (m : TokenStream) : (separated .dot name).Confined level 0 m :=
    Confined.separated rfl fun _ => confined_name
  refine confined_current_bind (confined_kind_bind (confined_ite_sign (fun hkind => ?_) ?_))
  · refine confined_take_bind (by rw [hkind]; rfl) fun _ m => (confined_pure _).bind fun _ m => ?_
    exact (hnames m).map _
  · exact (confined_pure _).bind fun _ m => (hnames m).map _

theorem confined_imported (start : Span) : (imported start).Confined (level + 1) 0 s := by
  refine confined_importPath.bind fun path m => confined_kind_bind ?_
  split
  · rename_i hkind
    refine confined_open_bind (by rw [hkind]; rfl) fun _ m => ?_
    exact (Confined.separated rfl fun _ => confined_name).bind fun _ m =>
      (confined_sign rfl rfl).map _
  · rename_i hkind
    refine confined_take_bind (by rw [hkind]; rfl) fun _ m => ?_
    exact confined_name.map _
  · exact confined_pure _

theorem confined_declared (start : Span) : (declared start).Confined level 0 s :=
  confined_name.bind fun _ _ => (Confined.many fun _ _ => confined_name).map _

theorem confined_redefinition (node : NodeKind) (directive : Directive) (start : Span) :
    (redefinition node directive start).Confined maxNesting 0 s := by
  have hproper : (Expectation.definitionAfter directive.name).IsProper := ⟨directive, rfl⟩
  exact (confined_definition hproper).map _

theorem confined_directive {name : String} (h : s.current.kind = .directive name) :
    (directive name).Confined maxNesting 0 s := by
  unfold directive
  split
  · exact confined_refuse h id (by simp)
  · refine confined_take_bind (by rw [h]; rfl) fun t m => ?_
    split
    · exact (confined_expansions _ _).map _
    · exact confined_imported _
    · exact confined_declared _
    · exact confined_redefinition _ _ _
    · exact confined_redefinition _ _ _

/-- **The parser of statements stays within a statement.** -/
theorem confined_statement : statement.Confined maxNesting 0 s := by
  refine confined_kind_bind ?_
  split
  · rename_i hkind
    exact confined_directive hkind
  · exact confined_definition trivial

/-! ### Lines -/

/-- A token is refused within a statement, for a reason that fits it: either it ends none, or it
ends one behind a token that does not. -/
def RefusedWithin (s : TokenStream) (reason : Refusal) (r : TokenStream) : Prop :=
  ∃ taken, s = r.prepend taken ∧ reason.Fits maxNesting taken r.current.kind ∧
    (r.current.kind.endsStatement = false ∨
      ∃ before last, taken = before ++ [last] ∧ last.kind.endsStatement = false)

/-- A parser has taken some tokens, and neither stops behind two dots nor leaves a bracket open. -/
def TakesUpTo (s r : TokenStream) : Prop :=
  ∃ taken, s = r.prepend taken ∧ ¬Token.EndInDots taken ∧ Token.openCount taken = 0

variable {reason : Refusal}

theorem TakesUpTo.trans (h : TakesUpTo s m) (h' : TakesUpTo m r) : TakesUpTo s r := by
  obtain ⟨first, rfl, hfirst, hopen⟩ := h
  obtain ⟨second, rfl, hsecond, hopen'⟩ := h'
  refine ⟨first ++ second, (TokenStream.prepend_append ..).symm,
    Token.not_endInDots_append hfirst hsecond, ?_⟩
  rw [Token.openCount_append, hopen, hopen', Int.add_zero]

theorem takesUpTo_newline {t : Token} (h : t.kind = .newline) : TakesUpTo (r.cons t) r := by
  refine ⟨[t], rfl, fun hdots => ?_, by simp [h, TokenKind.opening]⟩
  have hkind := (@Token.endInDots_concat [] t).1 hdots
  rw [h] at hkind
  contradiction

/-- What is refused behind a part of a stream is refused of the whole. -/
theorem RefusedWithin.of_takesUpTo (h : RefusedWithin m reason r) (hs : TakesUpTo s m) :
    RefusedWithin s reason r := by
  obtain ⟨taken, rfl, hreason, hkind⟩ := h
  obtain ⟨front, rfl, hfront, hopen⟩ := hs
  refine ⟨front ++ taken, (TokenStream.prepend_append ..).symm,
    hreason.append hfront (by rw [hopen, Int.add_zero]), hkind.imp_right ?_⟩
  rintro ⟨before, last, rfl, hlast⟩
  exact ⟨front ++ before, last, (List.append_assoc ..).symm, hlast⟩

/-- A sequence refuses where one of its parts does. -/
theorem bind_eq_refused_iff : (parser >>= next) s = .refused reason r ↔
    parser s = .refused reason r ∨
      ∃ value m, parser s = .accepted value m ∧ next value m = .refused reason r := by
  rw [bind_apply]
  cases parser s with
  | accepted value m => simp
  | refused other m => simp

theorem refusedWithin_statement (hs : s.Terminated) (hkind : s.current.kind.endsStatement = false)
    (h : statement s = .refused reason r) : RefusedWithin s reason r := by
  obtain ⟨taken, ⟨rfl, htaken⟩, hreason⟩ := confined_statement.of_refused hs h
  rcases List.eq_nil_or_concat taken with rfl | ⟨before, last, rfl⟩
  · exact ⟨_, rfl, hreason, Or.inl hkind⟩
  · rw [List.concat_eq_append] at hreason htaken ⊢
    exact ⟨_, rfl, hreason, Or.inr ⟨before, last, rfl, htaken last (by simp)⟩⟩

/-- Behind a statement, what does not end it is refused. -/
theorem refusedWithin_endOfStatement (h : endOfStatement s = .refused reason r) :
    RefusedWithin s reason r := by
  have hproper : Expectation.endOfLine.IsProper := trivial
  unfold endOfStatement at h
  rw [kind_bind_apply] at h
  cases hkind : s.current.kind with
  | newline | endOfInput => simp [hkind] at h
  | _ =>
      rw [hkind] at h
      obtain ⟨rfl, -, hfits⟩ := fits_of_unexpected hproper h
      refine ⟨[], rfl, hfits maxNesting, Or.inl ?_⟩
      rw [hkind]
      rfl

/-- Line breaks are never refused. -/
theorem blankLines_ne_refused : blankLines s ≠ .refused reason r := by
  have htake (bound : List Token) (s : TokenStream) :
      manyWithin (· == .newline) take bound s ≠ .refused reason r := by
    induction bound generalizing s with
    | nil =>
        intro h
        contradiction
    | cons _ bound ih =>
        intro h
        rw [manyWithin, kind_bind_apply] at h
        split at h
        · rcases bind_eq_refused_iff.1 h with h | ⟨_, m, -, h⟩
          · contradiction
          rcases bind_eq_refused_iff.1 h with h | ⟨_, _, -, h⟩
          · exact ih m h
          · contradiction
        · contradiction
  intro h
  rcases bind_eq_refused_iff.1 h with h | ⟨_, _, -, h⟩
  · exact htake s.toList s h
  · contradiction

theorem takesUpTo_of_blankLines {u : Unit} (hs : s.Terminated)
    (h : blankLines s = .accepted u r) : TakesUpTo s r := by
  obtain ⟨newlines, m, hnewlines, hm⟩ := bind_eq_accepted_iff.1 h
  obtain ⟨-, rfl⟩ := Outcome.accepted.inj hm
  refine many_induction consumes_take (motive := fun s _ => TakesUpTo s m) ?_ ?_ hs hnewlines
  · intro _
    exact ⟨[], rfl, Token.not_endInDots_nil, rfl⟩
  · intro s t m' newlines hs calls htake ih
    obtain ⟨rfl, rfl⟩ := Outcome.accepted.inj htake
    obtain ⟨t, m', rfl, -⟩ := hs.exists_cons (by intro h; simp [h] at calls)
    exact (takesUpTo_newline (by simpa using calls)).trans ih

theorem takesUpTo_of_statement {tree : Tree} (hs : s.Terminated)
    (h : statement s = .accepted tree r) : TakesUpTo s r := by
  obtain ⟨taken, ⟨rfl, -⟩, hdots, hopen⟩ := confined_statement.of_accepted hs h
  exact ⟨taken, rfl, hdots, hopen⟩

theorem takesUpTo_of_endOfStatement {u : Unit} (hs : s.Terminated)
    (h : endOfStatement s = .accepted u r) : TakesUpTo s r := by
  unfold endOfStatement at h
  rw [kind_bind_apply] at h
  cases hkind : s.current.kind with
  | newline =>
      rw [hkind] at h
      obtain ⟨-, rfl⟩ := Outcome.accepted.inj h
      rw [hs.eq_cons (by simp [hkind])]
      exact takesUpTo_newline hkind
  | endOfInput =>
      rw [hkind] at h
      obtain ⟨-, rfl⟩ := Outcome.accepted.inj h
      exact ⟨[], rfl, Token.not_endInDots_nil, rfl⟩
  | _ =>
      rw [hkind] at h
      exact absurd h (unexpected_ne_accepted _ _ _)

theorem TakesUpTo.terminated (h : TakesUpTo s r) (hs : s.Terminated) : r.Terminated := by
  obtain ⟨taken, rfl, -, -⟩ := h
  refine hs.of_suffix ?_
  rw [TokenStream.toList_prepend]
  exact List.suffix_append _ _

theorem takesUpTo_of_terminatedStatement {tree : Tree} (hs : s.Terminated)
    (h : terminatedStatement s = .accepted tree r) : TakesUpTo s r := by
  obtain ⟨tree, m, hstatement, h⟩ := bind_eq_accepted_iff.1 h
  obtain ⟨_, m', hend, h⟩ := bind_eq_accepted_iff.1 h
  obtain ⟨_, r, hblank, h⟩ := bind_eq_accepted_iff.1 h
  obtain ⟨-, rfl⟩ := Outcome.accepted.inj h
  have hm := takesUpTo_of_statement hs hstatement
  have hm' := hm.trans (takesUpTo_of_endOfStatement (hm.terminated hs) hend)
  exact hm'.trans (takesUpTo_of_blankLines (hm'.terminated hs) hblank)

theorem refusedWithin_terminatedStatement (hs : s.Terminated)
    (hkind : s.current.kind.endsStatement = false)
    (h : terminatedStatement s = .refused reason r) : RefusedWithin s reason r := by
  rw [terminatedStatement, bind_eq_refused_iff] at h
  rcases h with h | ⟨tree, m, hstatement, h⟩
  · exact refusedWithin_statement hs hkind h
  rcases bind_eq_refused_iff.1 h with h | ⟨_, m', -, h⟩
  · exact (refusedWithin_endOfStatement h).of_takesUpTo (takesUpTo_of_statement hs hstatement)
  · rcases bind_eq_refused_iff.1 h with h | ⟨_, _, -, h⟩
    · exact absurd h blankLines_ne_refused
    · contradiction

/-- Statement after statement, each begins with a token that ends none. -/
theorem refusedWithin_statements (bound : List Token) (hs : s.Terminated)
    (hkind : s.current.kind ≠ .newline)
    (h : manyWithin (· != .endOfInput) terminatedStatement bound s = .refused reason r) :
    RefusedWithin s reason r := by
  induction bound generalizing s with
  | nil => contradiction
  | cons _ bound ih =>
      rw [manyWithin, kind_bind_apply] at h
      split at h
      · rename_i calls
        rcases bind_eq_refused_iff.1 h with h | ⟨tree, m, htree, h⟩
        · refine refusedWithin_terminatedStatement hs ?_ h
          cases hcurrent : s.current.kind with
          | newline => exact absurd hcurrent hkind
          | endOfInput => simp [hcurrent] at calls
          | _ => rfl
        rcases bind_eq_refused_iff.1 h with h | ⟨_, _, -, h⟩
        · have hm := takesUpTo_of_terminatedStatement hs htree
          refine (ih (hm.terminated hs) ?_ h).of_takesUpTo hm
          obtain ⟨m', hstatement, ⟨hend, rfl⟩ | ⟨newline, m'', rfl, -, hblank⟩⟩ :=
            sound_terminatedStatement hs htree
          · simp [hend]
          · have hm := (hs.of_suffix hstatement.suffix).of_cons
            exact (sound_blankLines (n := 0) hm hblank).2.1
        · contradiction
      · contradiction

/-- **What is refused of a text** is refused within a statement. -/
theorem refusedWithin_grammar {length : ℕ} (hs : s.Terminated)
    (h : grammar length s = .refused reason r) : RefusedWithin s reason r := by
  rcases bind_eq_refused_iff.1 h with h | ⟨_, m, hblank, h⟩
  · exact absurd h blankLines_ne_refused
  obtain ⟨hm, hkind, -⟩ := sound_blankLines (n := 0) hs hblank
  rcases bind_eq_refused_iff.1 h with h | ⟨_, _, -, h⟩
  · exact (refusedWithin_statements _ hm hkind h).of_takesUpTo (takesUpTo_of_blankLines hs hblank)
  · contradiction

end Parse

/-! ### Errors -/

/-- **An error is a refusal** of one of the tokens of the text, for a reason that fits this token
behind those before it. -/
theorem Tree.exists_fits_of_error {source : String} {failure : Failure}
    (h : ofSource source = .error failure) :
    ∃ (reason : Refusal) (before : List Token) (token : Token) (after : List Token),
      Token.significant source = before ++ token :: after ∧
      failure = reason.toFailure token.span source ∧
      reason.Fits Parse.maxNesting before token.kind ∧
      (token.kind.endsStatement = false ∨
        ∃ front last, before = front ++ [last] ∧ last.kind.endsStatement = false) := by
  have hs := TokenStream.terminated_ofSource source
  rw [ofSource_eq, ofTokens] at h
  cases hgrammar : Parse.grammar (Text.byteLength source.toList) (TokenStream.ofSource source) with
  | accepted tree r =>
      rw [hgrammar] at h
      contradiction
  | refused reason r =>
      rw [hgrammar] at h
      obtain ⟨before, hbefore, hreason, hwithin⟩ := Parse.refusedWithin_grammar hs hgrammar
      refine ⟨reason, before, r.current, r.ahead, ?_, (Except.error.inj h).symm, hreason, hwithin⟩
      rw [← TokenStream.toList_ofSource, hbefore, TokenStream.toList_prepend]
      rfl

end GrammarCatalog
