/-
**What the tokens of a statement say.**

A statement defines a name if it begins with a rule name, or with one behind a directive that leads
a definition; and it gives the rule names behind its arrows to alternatives, unless it is an import.
Neither is changed by what stands behind the end of the statement.

Main definitions:

* `GrammarCatalog.TokenKind.Defines`, `GrammarCatalog.TokenKind.Aliases` — what the tokens of a
  statement say;
* `GrammarCatalog.TokenKind.targets` — the rule names behind arrows;
* `GrammarCatalog.TokenKind.Reads` — events are what the tokens of a statement say.

Main results:

* `GrammarCatalog.TokenKind.mem_targets`, `GrammarCatalog.TokenKind.targets_append` — the names
  behind the arrows of a list, and of two lists one behind the other;
* `GrammarCatalog.TokenKind.defines_append` — what stands behind the end of a statement does not
  matter;
* `GrammarCatalog.TokenKind.splitOn_newline` — statements stand between line breaks.
-/

import Mathlib.Data.List.Infix
import GrammarCatalog.Declaration.Basic
import GrammarCatalog.Proofs.MetaGrammar.Spelled

set_option relaxedAutoImplicit false
set_option autoImplicit false

namespace GrammarCatalog

namespace TokenKind

/-! ### What tokens say -/

/-- A statement defines a name: it begins with a rule of that name, or with a directive that leads a
definition and then the rule. -/
def Defines (name : String) (statement : List TokenKind) : Prop :=
  [.rule name] <+: statement ∨
    ∃ which ∈ [Directive.override, Directive.extend],
      [.directive which.name, .rule name] <+: statement

/-- A statement gives a name to an alternative: it is no import, and in it the name stands behind an
arrow. -/
def Aliases (name : String) (statement : List TokenKind) : Prop :=
  ¬[.directive Directive.importing.name] <+: statement ∧
    [.punctuation .arrow, .rule name] <:+: statement

instance (name : String) (statement : List TokenKind) : Decidable (Defines name statement) :=
  inferInstanceAs (Decidable (_ ∨ _))

instance (name : String) (statement : List TokenKind) : Decidable (Aliases name statement) :=
  inferInstanceAs (Decidable (_ ∧ _))

/-- The rule names behind arrows. -/
def targets : List TokenKind → List String
  | .punctuation .arrow :: .rule name :: kinds => name :: targets kinds
  | _ :: kinds => targets kinds
  | [] => []

theorem targets_cons {kind : TokenKind} (h : kind ≠ .punctuation .arrow) (kinds : List TokenKind) :
    targets (kind :: kinds) = targets kinds := by
  rw [targets]
  rintro name kinds rfl
  exact absurd rfl h

theorem mem_targets {name : String} {kinds : List TokenKind} :
    name ∈ targets kinds ↔ [.punctuation .arrow, .rule name] <:+: kinds := by
  fun_induction targets kinds with
  | case1 other kinds ih =>
      rw [List.mem_cons, ih, List.infix_cons_iff, List.infix_cons_iff]
      simp [List.cons_prefix_cons]
  | case2 kind kinds hne ih =>
      rw [ih, List.infix_cons_iff, or_iff_right]
      rintro ⟨rest, hrest⟩
      obtain ⟨rfl, rfl⟩ := List.cons.inj hrest
      exact hne name rest rfl rfl
  | case3 => simp

/-- No arrow at the end of a list has its name in the next, if that does not begin with a rule. -/
theorem targets_append {kinds others : List TokenKind}
    (h : ∀ name, others.head? ≠ some (.rule name)) :
    targets (kinds ++ others) = targets kinds ++ targets others := by
  fun_induction targets kinds with
  | case1 name kinds ih => simp [targets, ih]
  | case2 kind kinds hne ih =>
      rw [List.cons_append, ← ih]
      by_cases harrow : kind = .punctuation .arrow
      · subst harrow
        cases kinds with
        | nil =>
            cases others with
            | nil => rfl
            | cons other others =>
                cases other with
                | rule name => exact absurd rfl (h name)
                | _ => rfl
        | cons other kinds =>
            cases other with
            | rule name => exact absurd rfl (hne name kinds rfl)
            | _ => rfl
      · exact targets_cons harrow _
  | case3 => rfl

/-- What begins a statement is not changed by what stands behind its end. -/
theorem prefix_append_iff {words kinds rest : List TokenKind}
    (hwords : ∀ kind ∈ words, kind.endsStatement = false)
    (hrest : ∀ kind ∈ rest.head?, kind.endsStatement = true) :
    words <+: kinds ++ rest ↔ words <+: kinds := by
  induction kinds generalizing words with
  | nil =>
      cases words with
      | nil => simp
      | cons word words =>
          simp only [List.nil_append, List.prefix_nil, reduceCtorEq, iff_false]
          rintro ⟨others, rfl⟩
          have hends := hrest word rfl
          rw [hwords word List.mem_cons_self] at hends
          contradiction
  | cons kind kinds ih =>
      cases words with
      | nil => simp
      | cons word words =>
          rw [List.cons_append, List.cons_prefix_cons, List.cons_prefix_cons,
            ih fun kind hkind => hwords kind (List.mem_cons_of_mem _ hkind)]

theorem defines_append {name : String} {kinds rest : List TokenKind}
    (hrest : ∀ kind ∈ rest.head?, kind.endsStatement = true) :
    Defines name (kinds ++ rest) ↔ Defines name kinds := by
  have hlead (which : Directive) : [.directive which.name, .rule name] <+: kinds ++ rest ↔
      [.directive which.name, .rule name] <+: kinds :=
    prefix_append_iff (by simp [endsStatement]) hrest
  unfold Defines
  rw [prefix_append_iff (by simp [endsStatement]) hrest]
  simp only [hlead]

/-- The end of the text gives no name to an alternative. -/
theorem aliases_append_end {name : String} {statement : List TokenKind} :
    Aliases name (statement ++ [.endOfInput]) ↔ Aliases name statement := by
  rw [Aliases, Aliases, ← mem_targets, ← mem_targets, targets_append (by simp),
    prefix_append_iff (by simp [endsStatement]) (by simp [endsStatement])]
  simp [targets]

theorem singleton_prefix_cons {word kind : TokenKind} {kinds : List TokenKind} :
    [word] <+: kind :: kinds ↔ word = kind := by
  simp [List.cons_prefix_cons]

/-- A definition defines the name that it begins with, if that is the name of a rule. -/
theorem defines_of_isName {name : String} {kind : TokenKind} {kinds : List TokenKind}
    (h : kind.isName = true) : Defines name (kind :: kinds) ↔ kind.ruleName? = some name := by
  unfold Defines
  cases kind with
  | rule text => simp [ruleName?, eq_comm]
  | terminal text => simp [ruleName?, List.cons_prefix_cons]
  | _ => contradiction

/-- A definition behind a directive defines the same. -/
theorem defines_redefinition {name : String} {which : Directive} {kind : TokenKind}
    {kinds : List TokenKind} (h : which ∈ [Directive.override, Directive.extend]) :
    Defines name (.directive which.name :: kind :: kinds) ↔ kind.ruleName? = some name := by
  simp only [List.mem_cons, List.not_mem_nil, or_false] at h
  unfold Defines
  rcases h with rfl | rfl <;> cases kind <;>
    simp [ruleName?, List.cons_prefix_cons, Directive.name, eq_comm]

/-- Events are what the tokens of a statement say: the name that it defines, if it defines one, and
then its aliases. -/
structure Reads (statement : List TokenKind) (events : List Declaration) : Prop where
  /-- The rule is the name that is defined. -/
  defines (name : String) : ⟨name, .rule⟩ ∈ events ↔ Defines name statement
  /-- The aliases are the names that are given. -/
  aliases (name : String) : ⟨name, .aliased⟩ ∈ events ↔ Aliases name statement
  /-- The rule comes first. -/
  head (name : String) : ⟨name, .rule⟩ ∈ events → events.head? = some ⟨name, .rule⟩

theorem reads_nil : Reads [] [] := ⟨by simp [Defines], by simp [Aliases], by simp⟩

/-- The end of the text says nothing. -/
theorem Reads.append_end {statement : List TokenKind} {events : List Declaration}
    (h : Reads statement events) : Reads (statement ++ [.endOfInput]) events where
  defines name := by
    rw [h.defines, defines_append (by simp [endsStatement])]
  aliases name := by rw [h.aliases, aliases_append_end]
  head := h.head

theorem exists_rule_of_isRule {kind : TokenKind} (h : kind.isRule = true) :
    ∃ name, kind = .rule name := by
  cases kind with
  | rule name => exact ⟨name, rfl⟩
  | _ => contradiction

/-- A kind that is neither an arrow nor a line break. -/
def isPlain : TokenKind → Bool
  | punctuation .arrow | newline => false
  | _ => true

theorem isPlain_of_suits {suits : TokenKind → Bool} {kind : TokenKind} (h : suits kind = true)
    (harrow : suits (.punctuation .arrow) = false) (hnewline : suits .newline = false) :
    kind.isPlain = true := by
  unfold isPlain
  split
  · rw [harrow] at h; contradiction
  · rw [hnewline] at h; contradiction
  · rfl

theorem isPlain_of_eq {kind : TokenKind} {sign : Punctuation} (h : kind = .punctuation sign)
    (hsign : sign ≠ .arrow) : kind.isPlain = true := by
  subst h
  cases sign <;> first | rfl | contradiction

theorem ne_of_isPlain {kind : TokenKind} (h : kind.isPlain = true) :
    kind ≠ .punctuation .arrow ∧ kind ≠ .newline := by
  constructor <;> rintro rfl <;> contradiction

/-! ### Between line breaks -/

/-- What stands in front of a line break is a statement. -/
theorem splitOn_newline {taken : List TokenKind} (h : .newline ∉ taken) (rest : List TokenKind) :
    (taken ++ .newline :: rest).splitOn .newline = taken :: rest.splitOn .newline := by
  refine List.splitOnP_append_cons_of_forall_mem ?_ _ (by simp) _
  intro kind hkind
  have hne : kind ≠ .newline := by
    rintro rfl
    exact h hkind
  simpa using hne

/-- Without a line break there is one statement. -/
theorem splitOn_of_notMem {taken : List TokenKind} (h : .newline ∉ taken) :
    taken.splitOn .newline = [taken] := by
  refine List.splitOnP_eq_singleton ?_
  intro kind hkind
  have hne : kind ≠ .newline := by
    rintro rfl
    exact h hkind
  simpa using hne

end TokenKind

/-- The kinds of the tokens of a stream. -/
def TokenStream.kinds (stream : TokenStream) : List TokenKind := stream.toList.map Token.kind

theorem TokenStream.kinds_eq (stream : TokenStream) :
    stream.kinds = stream.current.kind :: stream.ahead.map Token.kind := rfl

@[simp] theorem TokenStream.kinds_cons (token : Token) (stream : TokenStream) :
    (stream.cons token).kinds = token.kind :: stream.kinds := rfl

end GrammarCatalog
