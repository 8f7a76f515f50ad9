/-
**Taking apart and putting together.**

Whatever text a spelling is, it is taken apart exactly when it is an exclamation mark or none, then
an underscore or a question mark or neither, and then a text that begins with a lower-case letter of
ASCII.  Two of a kind, markers the other way round, and markers with nothing behind them are
refused, and so is a marker in front of one that must come first; but behind the first letter
anything may stand, markers too.

The parts are those that the spelling is put together from, and any markers and any such text can
be: taking apart and putting together are inverse to each other.  So declarations that differ still
differ when their markers have been taken off and are kept beside them.

Main definitions:

* `GrammarCatalog.Pattern.lowered`, `GrammarCatalog.Pattern.marked` — the base names, and the
  spellings that are taken apart.

Main results:

* `GrammarCatalog.Pattern.mem_marked_iff` — the form, as markers in front of a base name;
* `GrammarCatalog.Decomposition.exists_ofSpelling_iff` — what is taken apart;
* `GrammarCatalog.Decomposition.ofSpelling_text_append` — what is put together is taken apart again;
* `GrammarCatalog.Decomposition.ofSpelling_inverse` — **taking apart and putting together are
  inverse** to each other.
-/

import GrammarCatalog.Proofs.Declaration.DeclaredNames

set_option relaxedAutoImplicit false
set_option autoImplicit false

namespace GrammarCatalog

/-! ### The form of a marked name -/

namespace Pattern

variable {word : List Char}

/-- A text that begins with a lower-case letter. -/
def lowered : Language Char := one Char.isLower * ⊤

/-- Markers and a base name: an exclamation mark or none, an underscore or a question mark or
neither, and a text that begins with a lower-case letter. -/
def marked : Language Char := optional '!' * (optional '_' + optional '?') * lowered

theorem mem_lowered_iff : word ∈ lowered ↔ Decomposition.startsLower word = true := by
  constructor
  · intro h
    obtain ⟨first, ⟨c, hc, rfl⟩, rest, -, rfl⟩ := Language.mem_mul.1 h
    exact hc
  · intro h
    cases word with
    | nil => contradiction
    | cons c word =>
        have hc : [c] ∈ one Char.isLower := ⟨c, h, rfl⟩
        have hword : word ∈ (⊤ : Language Char) := trivial
        exact Language.append_mem_mul hc hword

theorem mem_visibility_iff :
    word ∈ optional '_' + optional '?' ↔
      ∃ visibility : Visibility, word = visibility.marker?.toList := by
  rw [Language.mem_add, mem_optional_iff, mem_optional_iff]
  constructor
  · rintro ((rfl | rfl) | (rfl | rfl))
    · exact ⟨.visible, rfl⟩
    · exact ⟨.inner, rfl⟩
    · exact ⟨.visible, rfl⟩
    · exact ⟨.conditional, rfl⟩
  · rintro ⟨visibility, rfl⟩
    cases visibility with
    | visible => exact Or.inl (Or.inl rfl)
    | inner => exact Or.inl (Or.inr rfl)
    | conditional => exact Or.inr (Or.inr rfl)

theorem mem_markers_iff :
    word ∈ optional '!' * (optional '_' + optional '?') ↔
      ∃ markers : Markers, word = markers.chars := by
  rw [Language.mem_mul]
  constructor
  · rintro ⟨bang, hbang, mark, hmark, rfl⟩
    obtain ⟨pinned, rfl⟩ := mem_optional_bang_iff.1 hbang
    obtain ⟨visibility, rfl⟩ := mem_visibility_iff.1 hmark
    exact ⟨⟨pinned, visibility⟩, rfl⟩
  · rintro ⟨⟨pinned, visibility⟩, rfl⟩
    exact ⟨_, mem_optional_bang_iff.2 ⟨pinned, rfl⟩, _, mem_visibility_iff.2 ⟨visibility, rfl⟩, rfl⟩

/-- Marked names are markers in front of a base name. -/
theorem mem_marked_iff :
    word ∈ marked ↔ ∃ (markers : Markers) (base : List Char),
      word = markers.chars ++ base ∧ base ∈ lowered := by
  rw [marked, Language.mem_mul]
  constructor
  · rintro ⟨front, hfront, base, hbase, rfl⟩
    obtain ⟨markers, rfl⟩ := mem_markers_iff.1 hfront
    exact ⟨markers, base, rfl, hbase⟩
  · rintro ⟨markers, base, rfl, hbase⟩
    exact ⟨_, mem_markers_iff.2 ⟨markers, rfl⟩, base, hbase, rfl⟩

end Pattern

/-! ### Taking apart -/

namespace Decomposition

variable {spelling base : String} {markers : Markers} {parts other : Decomposition}

/-- **What is put together is taken apart again**, whatever the markers are. -/
theorem ofSpelling_text_append (markers : Markers) (h : base.toList ∈ Pattern.lowered) :
    ofSpelling (markers.text ++ base) = .ok ⟨base, markers⟩ :=
  ofSpelling_eq_ok_iff.2 ⟨rfl, Pattern.mem_lowered_iff.1 h⟩

/-- **Marked names are taken apart, and nothing else is.** -/
theorem exists_ofSpelling_iff :
    (∃ parts, ofSpelling spelling = .ok parts) ↔ spelling.toList ∈ Pattern.marked := by
  rw [Pattern.mem_marked_iff]
  constructor
  · rintro ⟨parts, hparts⟩
    obtain ⟨rfl, hbase⟩ := ofSpelling_eq_ok_iff.1 hparts
    exact ⟨parts.markers, parts.baseName.toList, by simp [Decomposition.spelling, Markers.text],
      Pattern.mem_lowered_iff.2 hbase⟩
  · rintro ⟨markers, base, hspelling, hbase⟩
    have hword : spelling = markers.text ++ String.ofList base := by
      rw [← String.toList_inj, hspelling]
      simp [Markers.text]
    rw [hword]
    exact ⟨_, ofSpelling_text_append markers (by simpa using hbase)⟩

/-- All other spellings are refused, with the spelling in the message. -/
theorem ofSpelling_eq_error (h : spelling.toList ∉ Pattern.marked) :
    ofSpelling spelling = .error (.undecodable spelling) := by
  have hrefused : ¬ ∃ parts, ofSpelling spelling = .ok parts := mt exists_ofSpelling_iff.1 h
  unfold ofSpelling at hrefused ⊢
  dsimp only at hrefused ⊢
  split
  · rename_i hlower
    exact absurd ⟨_, if_pos hlower⟩ hrefused
  · rfl

/-- The markers and the base name determine the spelling. -/
theorem eq_of_ofSpelling {left right : String} (hleft : ofSpelling left = .ok parts)
    (hright : ofSpelling right = .ok other) (hmarkers : parts.markers = other.markers)
    (hbase : parts.baseName = other.baseName) : left = right := by
  rw [← (ofSpelling_eq_ok_iff.1 hleft).1, ← (ofSpelling_eq_ok_iff.1 hright).1,
    Decomposition.spelling, Decomposition.spelling, hmarkers, hbase]

/-- A declaration of a marked name is classified, and its name is spelled as the declaration. -/
theorem exists_classify (h : spelling.toList ∈ Pattern.marked) (kind : Declaration.Kind) :
    ∃ name, Declaration.classify ⟨spelling, kind⟩ = .ok name ∧ name.spelling = spelling ∧
      name.kind = kind := by
  obtain ⟨parts, hparts⟩ := exists_ofSpelling_iff.2 h
  refine ⟨⟨parts.baseName, parts.markers, kind⟩, ?_, (ofSpelling_eq_ok_iff.1 hparts).1, rfl⟩
  rw [Declaration.classify, hparts]
  rfl

/-- **Taking apart and putting together are inverse to each other.**  Spellings of the form are
taken apart, and all others are refused; a classified name is spelled as it was declared; the text
of any markers in front of any base name is taken apart into the two; and spellings with the same
markers and the same base name are the same. -/
theorem ofSpelling_inverse :
    (∀ spelling : String,
      ((∃ parts, ofSpelling spelling = .ok parts) ↔ spelling.toList ∈ Pattern.marked) ∧
        (spelling.toList ∉ Pattern.marked →
          ofSpelling spelling = .error (.undecodable spelling))) ∧
      (∀ (spelling : String) (kind : Declaration.Kind), spelling.toList ∈ Pattern.marked →
        ∃ name, Declaration.classify ⟨spelling, kind⟩ = .ok name ∧ name.spelling = spelling ∧
          name.kind = kind) ∧
      (∀ (markers : Markers) (base : String), base.toList ∈ Pattern.lowered →
        ofSpelling (markers.text ++ base) = .ok ⟨base, markers⟩) ∧
      ∀ (left right : String) (parts other : Decomposition), ofSpelling left = .ok parts →
        ofSpelling right = .ok other → parts.markers = other.markers →
        parts.baseName = other.baseName → left = right :=
  ⟨fun _ => ⟨exists_ofSpelling_iff, ofSpelling_eq_error⟩, fun _ kind h => exists_classify h kind,
    fun markers _ => ofSpelling_text_append markers, fun _ _ _ _ => eq_of_ofSpelling⟩

/-- Markers in a base name stay there, and markers in the wrong order are refused. -/
example : ofSpelling "!_a?b" = .ok ⟨"a?b", ⟨true, .inner⟩⟩ ∧
    ofSpelling "?!a" = .error (.undecodable "?!a") := by decide

end Decomposition

end GrammarCatalog
