/-
**How rule names are spelled.**

Every rule token spells markers and a base name: a lower-case letter, and then lower-case letters,
digits and underscores.  The scanner accepts markers in two steps, the exclamation mark and the
question mark in front of a name and the underscore as its first character; together they are the
markers of a declared name, since a name cannot have both a question mark and an underscore.

Main definitions:

* `GrammarCatalog.Decomposition.IsDeclared` — the spelling of a declared name.

Main results:

* `GrammarCatalog.Lexeme.isDeclared_of_scan` — rule lexemes have such spellings;
* `GrammarCatalog.Decomposition.IsDeclared.exists_ofSpelling` — such a spelling is taken apart, and
  its base name is uniform;
* `GrammarCatalog.Token.isDeclared_of_mem` — **rule tokens of a text** have such spellings.
-/

import GrammarCatalog.Declaration.Markers
import GrammarCatalog.Proofs.Token.Lexemes
import GrammarCatalog.Proofs.Token.Steps

set_option relaxedAutoImplicit false
set_option autoImplicit false

namespace GrammarCatalog

namespace Decomposition

/-- The spelling of a declared name: markers, and then lower-case letters, digits and underscores,
of which the first is a letter. -/
def IsDeclared (spelling : List Char) : Prop :=
  ∃ (markers : Markers) (base : List Char), spelling = markers.chars ++ base ∧
    Name.isUniform Char.isLower base = true

theorem startsLower_of_isUniform {base : List Char} (h : Name.isUniform Char.isLower base = true) :
    startsLower base = true := by
  cases base with
  | nil => simp [Name.isUniform] at h
  | cons c base =>
      simp only [Name.isUniform, Bool.and_eq_true] at h
      simpa [startsLower] using h.1

/-- The spelling of a declared name is taken apart. -/
theorem IsDeclared.exists_ofSpelling {spelling : String} (h : IsDeclared spelling.toList) :
    ∃ decomposition, ofSpelling spelling = .ok decomposition ∧
      Name.isUniform Char.isLower decomposition.baseName.toList = true := by
  obtain ⟨markers, base, hspelling, hbase⟩ := h
  refine ⟨⟨String.ofList base, markers⟩, ofSpelling_eq_ok_iff.2 ⟨?_, ?_⟩, by simpa using hbase⟩
  · rw [← String.toList_inj]
    simp [Decomposition.spelling, Markers.text, hspelling]
  · simpa using startsLower_of_isUniform hbase

end Decomposition

namespace Lexeme

open Decomposition (IsDeclared)

/-- A rule name is declared with an underscore for a marker, or without. -/
theorem isDeclared_of_isRule {text : List Char} (pinned : Bool) (h : Name.isRule text = true) :
    IsDeclared ((if pinned then ['!'] else []) ++ text) := by
  unfold Name.isRule at h
  cases text with
  | nil => simp [Name.body, Name.isUniform] at h
  | cons c text =>
      by_cases hc : c = '_'
      · subst hc
        exact ⟨⟨pinned, .inner⟩, text, by simp [Markers.chars, Visibility.marker?], h⟩
      · have hbody : Name.body (c :: text) = c :: text := by simp [Name.body, hc]
        rw [hbody] at h
        exact ⟨⟨pinned, .visible⟩, c :: text, by simp [Markers.chars, Visibility.marker?], h⟩

/-- Behind a question mark a rule name has no underscore in front. -/
theorem isDeclared_of_conditional {text : List Char} (pinned : Bool)
    (h : Name.isRule text = true) (hhead : text.head? ≠ some '_') :
    IsDeclared ((if pinned then ['!'] else []) ++ '?' :: text) := by
  unfold Name.isRule at h
  have hbody : Name.body text = text := by
    cases text with
    | nil => rfl
    | cons c text =>
        have hc : c ≠ '_' := by simpa using hhead
        simp [Name.body, hc]
  rw [hbody] at h
  exact ⟨⟨pinned, .conditional⟩, text, by simp [Markers.chars, Visibility.marker?], h⟩

theorem isDeclared_of_scanName {cs : List Char} {name : String}
    (h : (scanName cs).kind = .rule name) : IsDeclared name.toList := by
  simp only [scanName, nameKind] at h
  split at h
  · rename_i hrule
    obtain rfl := TokenKind.rule.inj h
    simpa using isDeclared_of_isRule false hrule
  · split at h <;> cases h

theorem isDeclared_of_scanMarked {cs : List Char} {name : String}
    (h : (scanMarked cs).kind = .rule name) : IsDeclared name.toList := by
  have hmarks : (splitMarks cs).1 = ['!', '?'] ∨ (splitMarks cs).1 = ['!'] ∨
      (splitMarks cs).1 = ['?'] ∨ (splitMarks cs).1 = [] := by
    unfold splitMarks
    split <;> simp
  simp only [scanMarked, markedKind] at h
  generalize (splitMarks cs).2.takeWhile Name.isPart = text at h
  split at h
  · rename_i hrule
    split at h
    · cases h
    · rename_i hhead
      obtain rfl := TokenKind.rule.inj h
      rcases hmarks with hmarks | hmarks | hmarks | hmarks <;> rw [hmarks] at hhead ⊢
      · simpa using isDeclared_of_conditional true hrule (by simpa using hhead)
      · simpa using isDeclared_of_isRule true hrule
      · simpa using isDeclared_of_conditional false hrule (by simpa using hhead)
      · simpa using isDeclared_of_isRule false hrule
  · split at h <;> cases h

/-! ### Other lexemes are no rule names -/

theorem scanNumber_ne_rule (negative : Bool) (cs : List Char) (name : String) :
    (scanNumber negative cs).kind ≠ .rule name := by
  simp only [scanNumber, integer]
  split
  · split <;> simp
  · split <;> simp

theorem scanSymbol_ne_rule (c : Char) (cs : List Char) (name : String) :
    (scanSymbol c cs).kind ≠ .rule name := by
  unfold scanSymbol
  split
  · simp
  · simp
  · simp
  · split
    · exact scanNumber_ne_rule true _ name
    · simp
  · simp [scanComment]
  · simp [scanComment]
  · simp only [scanRegexp]
    split <;> simp
  · simp only [scanString]
    split <;> simp
  · simp only [scanDirective]
    split
    · simp
    · split <;> simp
  · unfold scanSign
    split <;> simp

/-- Rule lexemes spell declared names. -/
theorem isDeclared_of_scan {opening : Bool} {c : Char} {cs : List Char} {name : String}
    (h : (scan opening c cs).kind = .rule name) : IsDeclared name.toList := by
  unfold scan at h
  split at h
  · exact isDeclared_of_scanMarked h
  · split at h
    · exact absurd h (scanNumber_ne_rule false _ name)
    · split at h
      · exact isDeclared_of_scanName h
      · exact absurd h (scanSymbol_ne_rule c cs name)

end Lexeme

namespace Token

/-- **The rule tokens of a text** spell declared names. -/
theorem isDeclared_of_mem {source : String} {token : Token} (h : token ∈ ofSource source)
    {name : String} (hkind : token.kind = .rule name) :
    Decomposition.IsDeclared name.toList := by
  have hall : ∀ token ∈ ofSource source, token.kind = .rule name →
      Decomposition.IsDeclared name.toList := by
    refine Scan.forall_mem_tokens (fun scan token after (_ : True) hstep => ⟨?_, trivial⟩) trivial
    intro hkind
    cases hstep with
    | finish _ _ => cases hkind
    | newline _ _ _ _ _ _ _ => cases hkind
    | lexeme _ _ _ _ => exact Lexeme.isDeclared_of_scan hkind
  exact hall token h hkind

end Token

end GrammarCatalog
