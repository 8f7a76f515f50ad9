/-
**Patterns of tokens.**

How names and literals may be spelled, stated as languages over characters: product for sequence,
sum for choice, star for repetition.  Nothing in them mentions a scanner.  A token of a class takes
a run of characters, as many as there are: where the run ends, no character of the class stands.

Main definitions:

* `GrammarCatalog.Text.IsRun` — a run of a class of characters that no other of them follows;
* `GrammarCatalog.Pattern.ruleName`, `GrammarCatalog.Pattern.terminalName` — the spellings of names;
* `GrammarCatalog.Pattern.inside`, `GrammarCatalog.Pattern.Unclosed` — what may stand between two
  delimiters, and what a literal is that breaks off.

Main results:

* `GrammarCatalog.Text.IsRun.takeWhile_eq` — a run is what is taken of its class;
* `GrammarCatalog.Pattern.mem_ruleName_of_isDeclared` — declared names are spelled as rule names;
* `GrammarCatalog.Pattern.text_scanBody_mem_inside`, `GrammarCatalog.Pattern.unclosed_scanBody` —
  what is scanned of a literal, closed or not.
-/

import Mathlib.Computability.Language
import GrammarCatalog.Proofs.Declaration.Spellings
import GrammarCatalog.Proofs.Token.LexemeEnds

set_option relaxedAutoImplicit false
set_option autoImplicit false

namespace GrammarCatalog

/-! ### Runs -/

namespace Text

variable {p : Char → Bool} {run rest : List Char}

/-- A run of characters of a class, with no other of them behind it. -/
def IsRun (p : Char → Bool) (run rest : List Char) : Prop :=
  (∀ c ∈ run, p c = true) ∧ ∀ c ∈ rest.head?, p c = false

theorem isRun_takeWhile (p : Char → Bool) (cs : List Char) :
    IsRun p (cs.takeWhile p) (cs.dropWhile p) := by
  refine ⟨List.all_eq_true.1 List.all_takeWhile, ?_⟩
  intro c hc
  have hnot := List.head?_dropWhile_not p cs
  rw [Option.mem_def.1 hc] at hnot
  simpa using hnot

theorem IsRun.takeWhile_eq (h : IsRun p run rest) : (run ++ rest).takeWhile p = run := by
  obtain ⟨hrun, hrest⟩ := h
  rw [List.takeWhile_append_of_pos hrun]
  cases rest with
  | nil => simp
  | cons c rest => simp [hrest c rfl]

theorem IsRun.dropWhile_eq (h : IsRun p run rest) : (run ++ rest).dropWhile p = rest := by
  obtain ⟨hrun, hrest⟩ := h
  rw [List.dropWhile_append_of_pos hrun]
  cases rest with
  | nil => rfl
  | cons c rest => simp [hrest c rfl]

end Text

namespace Pattern

open scoped Computability

/-! ### Spellings -/

/-- One character of a class. -/
def one (p : Char → Bool) : Language Char := {word | ∃ c, p c = true ∧ word = [c]}

/-- A character that may be left out. -/
def optional (c : Char) : Language Char := 1 + {[c]}

/-- A letter, and then letters, digits and underscores. -/
def uniform (isLetter : Char → Bool) : Language Char :=
  one isLetter * (one fun c => c == '_' || isLetter c || c.isDigit)∗

/-- The spellings of rules: a name in lower case behind its markers, which are an exclamation mark
and a question mark, or an exclamation mark and an underscore.  Either may be left out. -/
def ruleName : Language Char :=
  optional '!' * optional '?' * uniform Char.isLower +
    optional '!' * {['_']} * uniform Char.isLower

/-- The spellings of terminals: a name in upper case, with an underscore in front or without. -/
def terminalName : Language Char := optional '_' * uniform Char.isUpper

/-- A backslash and the character that it keeps, which is no line feed. -/
def escape : Language Char := {word | ∃ c, c ≠ '\n' ∧ word = ['\\', c]}

/-- What may stand between two delimiters: escapes, and characters that are neither backslashes nor
delimiters nor line feeds. -/
def inside (delimiter : Char) : Language Char :=
  (escape + one fun c => c != '\\' && c != delimiter && c != '\n')∗

variable {p : Char → Bool} {word rest : List Char} {language : Language Char} {c : Char}

/-! ### Names -/

theorem nil_mem_optional (c : Char) : [] ∈ optional c :=
  (Language.mem_add _ _ _).2 (Or.inl Language.nil_mem_one)

theorem self_mem_optional (c : Char) : [c] ∈ optional c :=
  (Language.mem_add _ _ _).2 (Or.inr rfl)

/-- A word in front of a repetition. -/
theorem append_mem_kstar (hword : word ∈ language) (hrest : rest ∈ language∗) :
    word ++ rest ∈ language∗ := by
  have hle : language * language∗ ≤ language∗ := mul_kstar_le_kstar
  exact hle (Language.append_mem_mul hword hrest)

theorem mem_kstar_one (h : ∀ c ∈ word, p c = true) : word ∈ (one p)∗ := by
  induction word with
  | nil => exact Language.nil_mem_kstar _
  | cons c word ih =>
      obtain ⟨hc, hword⟩ := List.forall_mem_cons.1 h
      have hmem : [c] ++ word ∈ (one p)∗ := append_mem_kstar ⟨c, hc, rfl⟩ (ih hword)
      exact hmem

theorem mem_uniform {isLetter : Char → Bool} (h : Name.isUniform isLetter word = true) :
    word ∈ uniform isLetter := by
  cases word with
  | nil => contradiction
  | cons c word =>
      simp only [Name.isUniform, Bool.and_eq_true, List.all_eq_true] at h
      exact Language.append_mem_mul (a := [c]) ⟨c, h.1, rfl⟩ (mem_kstar_one h.2)

/-- Declared names are spelled as rule names. -/
theorem mem_ruleName_of_isDeclared (h : Decomposition.IsDeclared word) : word ∈ ruleName := by
  obtain ⟨⟨pinned, visibility⟩, base, rfl, hbase⟩ := h
  have hbase := mem_uniform hbase
  have hbang : (if pinned then ['!'] else []) ∈ optional '!' := by
    cases pinned with
    | true => exact self_mem_optional '!'
    | false => exact nil_mem_optional '!'
  rw [ruleName, Language.mem_add]
  cases visibility with
  | visible =>
      left
      exact Language.append_mem_mul (Language.append_mem_mul hbang (nil_mem_optional '?')) hbase
  | inner =>
      right
      exact Language.append_mem_mul (Language.append_mem_mul hbang rfl) hbase
  | conditional =>
      left
      exact Language.append_mem_mul (Language.append_mem_mul hbang (self_mem_optional '?')) hbase

theorem mem_terminalName (h : Name.isTerminal word = true) : word ∈ terminalName := by
  rw [Name.isTerminal] at h
  cases word with
  | nil => contradiction
  | cons c word =>
      by_cases hc : c = '_'
      · subst hc
        exact Language.append_mem_mul (a := ['_']) (self_mem_optional '_') (mem_uniform h)
      · have hbody : Name.body (c :: word) = c :: word := by simp [Name.body, hc]
        rw [hbody] at h
        exact Language.append_mem_mul (nil_mem_optional '_') (mem_uniform h)

/-! ### Literals -/

open Literal (Body scanBody)

theorem escape_append_mem_inside {delimiter : Char} (hc : c ≠ '\n')
    (h : word ∈ inside delimiter) : ['\\', c] ++ word ∈ inside delimiter :=
  append_mem_kstar ((Language.mem_add _ _ _).2 (Or.inl ⟨c, hc, rfl⟩)) h

theorem plain_append_mem_inside {delimiter : Char} (hbackslash : c ≠ '\\')
    (hdelimiter : c ≠ delimiter) (hnewline : c ≠ '\n') (h : word ∈ inside delimiter) :
    [c] ++ word ∈ inside delimiter :=
  append_mem_kstar
    ((Language.mem_add _ _ _).2 (Or.inr ⟨c, by simp [hbackslash, hdelimiter, hnewline], rfl⟩)) h

/-- What is scanned of a literal may stand between its delimiters, up to a last backslash that keeps
no character where the literal breaks off.  It does so at a line feed or at the end of the text. -/
theorem scanBody_cases (delimiter : Char) (cs : List Char) :
    ∃ word ∈ inside delimiter,
      ((scanBody delimiter cs).closed = true ∧ (scanBody delimiter cs).text = word) ∨
      ((scanBody delimiter cs).closed = false ∧
        ((scanBody delimiter cs).text = word ∨ (scanBody delimiter cs).text = word ++ ['\\']) ∧
        ∀ c ∈ (scanBody delimiter cs).rest.head?, c = '\n') := by
  have hnil : [] ∈ inside delimiter := Language.nil_mem_kstar _
  fun_induction scanBody delimiter cs with
  | case1 => exact ⟨[], hnil, Or.inr ⟨rfl, Or.inl rfl, by simp⟩⟩
  | case2 => exact ⟨[], hnil, Or.inr ⟨rfl, Or.inr rfl, by simp⟩⟩
  | case3 rest => exact ⟨[], hnil, Or.inr ⟨rfl, Or.inr rfl, by simp⟩⟩
  | case4 c rest hc ih =>
      obtain ⟨word, hword, hcases⟩ := ih
      refine ⟨['\\', c] ++ word, escape_append_mem_inside hc hword, ?_⟩
      simpa [Body.push] using hcases
  | case5 rest => exact ⟨[], hnil, Or.inr ⟨rfl, Or.inl rfl, by simp⟩⟩
  | case6 rest => exact ⟨[], hnil, Or.inl ⟨rfl, rfl⟩⟩
  | case7 c rest hlast _ hescape hnewline hc ih =>
      obtain ⟨word, hword, hcases⟩ := ih
      have hbackslash := Literal.ne_backslash hlast hescape
      refine ⟨[c] ++ word, plain_append_mem_inside hbackslash hc hnewline hword, ?_⟩
      simpa [Body.push] using hcases

/-- The text of a closed literal. -/
theorem text_scanBody_mem_inside {delimiter : Char} {cs : List Char}
    (h : (scanBody delimiter cs).closed = true) :
    (scanBody delimiter cs).text ∈ inside delimiter := by
  obtain ⟨word, hword, ⟨-, htext⟩ | ⟨hopen, -⟩⟩ := scanBody_cases delimiter cs
  · rwa [htext]
  · rw [h] at hopen
    contradiction

/-- A literal that is not closed behind its opening delimiter: it breaks off, perhaps behind a
backslash, at a line feed or at the end of the text. -/
def Unclosed (delimiter : Char) (text rest : List Char) : Prop :=
  ∃ word ∈ inside delimiter,
    (text = delimiter :: word ∨ text = delimiter :: (word ++ ['\\'])) ∧ ∀ c ∈ rest.head?, c = '\n'

theorem unclosed_scanBody {delimiter : Char} {cs : List Char}
    (h : ¬(scanBody delimiter cs).closed = true) :
    Unclosed delimiter (delimiter :: (scanBody delimiter cs).text)
      (scanBody delimiter cs).rest := by
  obtain ⟨word, hword, ⟨hclosed, -⟩ | ⟨-, htext, hrest⟩⟩ := scanBody_cases delimiter cs
  · exact absurd hclosed h
  · refine ⟨word, hword, ?_, hrest⟩
    rcases htext with htext | htext
    · exact Or.inl (by rw [htext])
    · exact Or.inr (by rw [htext])

end Pattern

end GrammarCatalog
