/-
**What ends statements and texts.**

No statement has a line break in it, and no line of a text has its end in it: both stand behind
what they end.  This is seen on the languages, from the tokens up.

Main definitions:

* `GrammarCatalog.MetaGrammar.Avoids` — no word of a language has a kind in it.

Main results:

* `GrammarCatalog.MetaGrammar.avoids_statement` — **no statement has its end in it**;
* `GrammarCatalog.MetaGrammar.avoids_lines` — no lines have the end of the text in them;
* `GrammarCatalog.Phrase.Derives.exists_unended` — so neither is passed by what is derived.
-/

import GrammarCatalog.Proofs.MetaGrammar.Words

set_option relaxedAutoImplicit false
set_option autoImplicit false

namespace GrammarCatalog

namespace MetaGrammar

open scoped Computability

/-- No word of the language has the kind in it. -/
def Avoids (language : Language TokenKind) (kind : TokenKind) : Prop :=
  ∀ word ∈ language, kind ∉ word

section Operations

variable {language other : Language TokenKind} {kind : TokenKind}

theorem avoids_one : Avoids 1 kind := by
  intro word hword
  obtain rfl := (Language.mem_one _).1 hword
  exact List.not_mem_nil

theorem avoids_add :
    Avoids (language + other) kind ↔ Avoids language kind ∧ Avoids other kind := by
  constructor
  · intro h
    exact ⟨fun word hword => h word ((Language.mem_add _ _ _).2 (Or.inl hword)),
      fun word hword => h word ((Language.mem_add _ _ _).2 (Or.inr hword))⟩
  · rintro ⟨h, h'⟩ word hword
    exact ((Language.mem_add _ _ _).1 hword).elim (h word) (h' word)

theorem Avoids.mul (h : Avoids language kind) (h' : Avoids other kind) :
    Avoids (language * other) kind := by
  intro word hword
  obtain ⟨first, hfirst, second, hsecond, rfl⟩ := Language.mem_mul.1 hword
  rw [List.mem_append, not_or]
  exact ⟨h first hfirst, h' second hsecond⟩

theorem Avoids.kstar (h : Avoids language kind) : Avoids language∗ kind := by
  intro word hword
  obtain ⟨words, rfl, hwords⟩ := Language.mem_kstar.1 hword
  rw [List.mem_flatten]
  rintro ⟨part, hpart, hkind⟩
  exact h part (hwords part hpart) hkind

theorem avoids_token {suits : TokenKind → Bool} (h : suits kind = false) :
    Avoids (token suits) kind := by
  rintro word ⟨other, hother, rfl⟩ hmem
  obtain rfl : kind = other := by simpa using hmem
  rw [h] at hother
  contradiction

theorem Avoids.optional (h : Avoids language kind) : Avoids (optional language) kind :=
  avoids_add.2 ⟨avoids_one, h⟩

theorem Avoids.listOf {separator : Punctuation} (h : Avoids language kind)
    (hsign : Avoids (sign separator) kind) : Avoids (listOf separator language) kind :=
  h.mul (hsign.mul h).kstar

end Operations

/-! ### Statements -/

section Statements

variable {kind : TokenKind} (hkind : kind.endsStatement = true)

include hkind

/-- A class of kinds that has neither the line break nor the end of the text in it. -/
theorem avoids_of_classes {suits : TokenKind → Bool} (hnewline : suits .newline = false)
    (hend : suits .endOfInput = false) : Avoids (token suits) kind := by
  refine avoids_token ?_
  cases kind with
  | newline => exact hnewline
  | endOfInput => exact hend
  | _ => contradiction

theorem avoids_sign (which : Punctuation) : Avoids (sign which) kind :=
  avoids_of_classes hkind rfl rfl

theorem avoids_literal : Avoids literal kind := by
  have hstring : Avoids (token TokenKind.isString) kind := avoids_of_classes hkind rfl rfl
  have hregexp : Avoids (token TokenKind.isRegexp) kind := avoids_of_classes hkind rfl rfl
  have hterminal : Avoids (token TokenKind.isTerminal) kind := avoids_of_classes hkind rfl rfl
  have hrule : Avoids (token TokenKind.isRule) kind := avoids_of_classes hkind rfl rfl
  have hrange := (hstring.mul (avoids_sign hkind .dotDot)).mul hstring
  simp only [literal, avoids_add, hstring, hregexp, hterminal, hrule, hrange, and_self]

theorem avoids_value (n : ℕ) : Avoids (value n) kind := by
  induction n with
  | zero => exact avoids_literal hkind
  | succ n ih =>
      have hrule : Avoids (token TokenKind.isRule) kind := avoids_of_classes hkind rfl rfl
      refine avoids_add.2 ⟨avoids_literal hkind, ?_⟩
      exact ((hrule.mul (avoids_sign hkind _)).mul (ih.listOf (avoids_sign hkind _))).mul
        (avoids_sign hkind _)

theorem avoids_operator : Avoids operator kind := by
  have hnumber : Avoids (token TokenKind.isNumber) kind := avoids_of_classes hkind rfl rfl
  have hcount := ((avoids_sign hkind .tilde).mul hnumber).mul
    ((avoids_sign hkind .dotDot).mul hnumber).optional
  simp only [operator, avoids_add, avoids_sign hkind, hcount, and_self]

/-- Alternatives avoid what their atoms avoid. -/
theorem avoids_alternatives {atom : Language TokenKind} (h : Avoids atom kind) (aliases : Bool) :
    Avoids (alternatives aliases atom) kind := by
  have hrule : Avoids (token TokenKind.isRule) kind := avoids_of_classes hkind rfl rfl
  have hitems := (h.mul (avoids_operator hkind).optional).kstar
  refine Avoids.listOf ?_ (avoids_sign hkind _)
  cases aliases with
  | false => exact hitems.mul avoids_one
  | true => exact hitems.mul ((avoids_sign hkind _).mul hrule).optional

theorem avoids_expansions (n : ℕ) (aliases : Bool) : Avoids (expansions n aliases) kind := by
  induction n generalizing aliases with
  | zero => exact avoids_alternatives hkind (avoids_value hkind 0) aliases
  | succ n ih =>
      refine avoids_alternatives hkind (avoids_add.2 ⟨avoids_value hkind _, ?_⟩) aliases
      have hbody := ih true
      exact avoids_add.2 ⟨((avoids_sign hkind _).mul hbody).mul (avoids_sign hkind _),
        ((avoids_sign hkind _).mul hbody).mul (avoids_sign hkind _)⟩

theorem avoids_definition (n : ℕ) : Avoids (definition n) kind := by
  have hrule : Avoids (token TokenKind.isRule) kind := avoids_of_classes hkind rfl rfl
  have hterminal : Avoids (token TokenKind.isTerminal) kind := avoids_of_classes hkind rfl rfl
  have hnumber : Avoids (token TokenKind.isNumber) kind := avoids_of_classes hkind rfl rfl
  have hparams : Avoids params kind :=
    (((avoids_sign hkind _).mul (hrule.listOf (avoids_sign hkind _))).mul
      (avoids_sign hkind _)).optional
  have hpriority : Avoids priority kind := ((avoids_sign hkind _).mul hnumber).optional
  have hcolon := avoids_sign hkind .colon
  exact avoids_add.2 ⟨(((hrule.mul hparams).mul hpriority).mul hcolon).mul
    (avoids_expansions hkind n true),
    ((hterminal.mul hpriority).mul hcolon).mul (avoids_expansions hkind n false)⟩

theorem avoids_imported : Avoids imported kind := by
  have hname : Avoids (token TokenKind.isName) kind := avoids_of_classes hkind rfl rfl
  have hpath : Avoids path kind :=
    (avoids_sign hkind .dot).optional.mul (hname.listOf (avoids_sign hkind _))
  exact avoids_add.2 ⟨hpath.mul ((avoids_sign hkind _).mul hname).optional,
    ((hpath.mul (avoids_sign hkind _)).mul (hname.listOf (avoids_sign hkind _))).mul
      (avoids_sign hkind _)⟩

/-- **No statement has its end in it.** -/
theorem avoids_statement (n : ℕ) : Avoids (statement n) kind := by
  have hname : Avoids (token TokenKind.isName) kind := avoids_of_classes hkind rfl rfl
  have hdirective (which : Directive) : Avoids (directive which) kind :=
    avoids_of_classes hkind rfl rfl
  have hdefinition := avoids_definition hkind n
  have hignore := (hdirective .ignore).mul (avoids_expansions hkind n false)
  have himport := (hdirective .importing).mul (avoids_imported hkind)
  have hdeclare := ((hdirective .declare).mul hname).mul hname.kstar
  have hagain := (avoids_add.2 ⟨hdirective .override, hdirective .extend⟩).mul hdefinition
  simp only [statement, avoids_add, hdefinition, hignore, himport, hdeclare, hagain, and_self]

end Statements

/-- No lines have the end of the text in them. -/
theorem avoids_lines (n : ℕ) : Avoids (lines n) .endOfInput := by
  have hstatement : Avoids (statement n) .endOfInput := avoids_statement rfl n
  have hnewline : Avoids newline .endOfInput := avoids_token rfl
  exact (avoids_add.2 ⟨hnewline, hstatement.mul hnewline⟩).kstar.mul hstatement.optional

end MetaGrammar

/-- A statement is derived from tokens that end none. -/
theorem Phrase.Derives.exists_unended {n : ℕ} {s r : TokenStream} {slots : List Child}
    (h : Derives .statement n s r slots) :
    ∃ taken, s = r.prepend taken ∧ ∀ t ∈ taken, t.kind.endsStatement = false := by
  obtain ⟨taken, rfl, hword⟩ := h.spells
  refine ⟨taken, rfl, fun t ht => ?_⟩
  by_contra hends
  have hends := Bool.not_eq_false _ ▸ hends
  exact MetaGrammar.avoids_statement hends n _ hword (List.mem_map_of_mem ht)

end GrammarCatalog
