/-
**Markers and base names.**

A declared name may carry markers in front: an exclamation mark pins it, and then an underscore
makes it inner or a question mark makes it conditional.  What follows is the base name, which
begins with a lower-case letter.

Main definitions:

* `GrammarCatalog.Visibility`, `GrammarCatalog.Markers` — the markers of a name;
* `GrammarCatalog.Markers.text` — how markers are written;
* `GrammarCatalog.Decomposition.ofSpelling` — the markers and the base name of a spelling;
* `GrammarCatalog.ClassifiedName` — a declaration with its spelling taken apart.

Main results:

* `GrammarCatalog.Decomposition.ofSpelling_eq_ok_iff` — a spelling is taken apart exactly when it
  is the text of some markers and a name that begins with a lower-case letter.
-/

import GrammarCatalog.Declaration.Basic

set_option relaxedAutoImplicit false
set_option autoImplicit false

namespace GrammarCatalog

/-! ### Markers -/

/-- Whether a rule keeps its place in the trees it describes. -/
inductive Visibility where
  /-- It does. -/
  | visible
  /-- It does not. -/
  | inner
  /-- It does unless it has a single child. -/
  | conditional
  deriving DecidableEq, Repr, Inhabited

/-- The marker of a visibility. -/
def Visibility.marker? : Visibility → Option Char
  | visible => none
  | inner => some '_'
  | conditional => some '?'

/-- The markers in front of a name. -/
structure Markers where
  /-- The name is pinned. -/
  pinned : Bool := false
  /-- Whether what it names keeps its place. -/
  visibility : Visibility := .visible
  deriving DecidableEq, Repr, Inhabited

namespace Markers

/-- No markers. -/
def bare : Markers := {}

/-- The name is marked inner. -/
def isInner (markers : Markers) : Bool := markers.visibility == .inner

/-- The name is marked conditional. -/
def isConditional (markers : Markers) : Bool := markers.visibility == .conditional

/-- The characters of markers, in the order they are written. -/
def chars (markers : Markers) : List Char :=
  (if markers.pinned then ['!'] else []) ++ markers.visibility.marker?.toList

/-- How markers are written. -/
def text (markers : Markers) : String := String.ofList markers.chars

end Markers

/-! ### Taking spellings apart -/

/-- The markers of a spelling and what follows them. -/
structure Decomposition where
  /-- The name without markers. -/
  baseName : String
  /-- The markers. -/
  markers : Markers
  deriving DecidableEq, Repr, Inhabited

namespace Decomposition

/-- A base name begins with a lower-case letter of ASCII. -/
def startsLower (cs : List Char) : Bool := cs.head?.any Char.isLower

/-- The visibility that a text without exclamation mark is marked with, and what follows. -/
def splitVisibility : List Char → Visibility × List Char
  | '_' :: rest => (.inner, rest)
  | '?' :: rest => (.conditional, rest)
  | rest => (.visible, rest)

/-- The markers that a text is marked with, and what follows. -/
def splitMarkers : List Char → Markers × List Char
  | '!' :: rest => (⟨true, (splitVisibility rest).1⟩, (splitVisibility rest).2)
  | rest => (⟨false, (splitVisibility rest).1⟩, (splitVisibility rest).2)

/-- The markers and the base name of a spelling.  It is a fault when what follows the markers is
no base name. -/
def ofSpelling (spelling : String) : Except Fault Decomposition :=
  let parts := splitMarkers spelling.toList
  if startsLower parts.2 then .ok ⟨String.ofList parts.2, parts.1⟩
  else .error (.undecodable spelling)

/-- The spelling of a name with its markers. -/
def spelling (decomposition : Decomposition) : String :=
  decomposition.markers.text ++ decomposition.baseName

/-! ### Taking apart and putting together -/

theorem splitVisibility_append (cs : List Char) :
    (splitVisibility cs).1.marker?.toList ++ (splitVisibility cs).2 = cs := by
  unfold splitVisibility
  split <;> rfl

theorem splitMarkers_append (cs : List Char) :
    (splitMarkers cs).1.chars ++ (splitMarkers cs).2 = cs := by
  unfold splitMarkers
  split
  · simp [Markers.chars, splitVisibility_append]
  · simp [Markers.chars, splitVisibility_append]

theorem splitVisibility_marker (visibility : Visibility) {cs : List Char}
    (h : startsLower cs = true) :
    splitVisibility (visibility.marker?.toList ++ cs) = (visibility, cs) := by
  cases visibility with
  | inner => rfl
  | conditional => rfl
  | visible =>
      cases cs with
      | nil => simp [startsLower] at h
      | cons c cs =>
          have hc : c.isLower = true := by simpa [startsLower] using h
          simp only [Visibility.marker?, Option.toList_none, List.nil_append]
          unfold splitVisibility
          split
          · rename_i heq; cases heq; simp at hc
          · rename_i heq; cases heq; simp at hc
          · rfl

theorem splitMarkers_chars (markers : Markers) {cs : List Char} (h : startsLower cs = true) :
    splitMarkers (markers.chars ++ cs) = (markers, cs) := by
  obtain ⟨pinned, visibility⟩ := markers
  have hv := splitVisibility_marker visibility h
  cases pinned with
  | true => simp [Markers.chars, splitMarkers, hv]
  | false =>
      simp only [Markers.chars, Bool.false_eq_true, if_false, List.nil_append]
      -- neither a marker of a visibility nor a lower-case letter is an exclamation mark
      have hhead : ∀ rest, visibility.marker?.toList ++ cs ≠ '!' :: rest := by
        intro rest heq
        cases visibility with
        | inner => simp [Visibility.marker?] at heq
        | conditional => simp [Visibility.marker?] at heq
        | visible =>
            simp only [Visibility.marker?, Option.toList_none, List.nil_append] at heq
            subst heq
            simp [startsLower] at h
      unfold splitMarkers
      split
      · rename_i rest heq; exact absurd heq (hhead rest)
      · rw [hv]

/-- Taking apart succeeds with exactly the markers and base name that the spelling is put together
from. -/
theorem ofSpelling_eq_ok_iff {spelling : String} {decomposition : Decomposition} :
    ofSpelling spelling = .ok decomposition ↔
      decomposition.spelling = spelling ∧ startsLower decomposition.baseName.toList = true := by
  obtain ⟨baseName, markers⟩ := decomposition
  unfold ofSpelling
  dsimp only
  constructor
  · intro h
    split at h
    · rename_i hlower
      cases h
      refine ⟨?_, by simpa using hlower⟩
      rw [← String.toList_inj]
      simp [Decomposition.spelling, Markers.text, splitMarkers_append]
    · cases h
  · rintro ⟨rfl, hlower⟩
    have hsplit : splitMarkers (Decomposition.spelling ⟨baseName, markers⟩).toList =
        (markers, baseName.toList) := by
      simpa [Decomposition.spelling, Markers.text] using splitMarkers_chars markers hlower
    simp [hsplit, hlower]

end Decomposition

/-! ### Classified names -/

/-- A declaration with its spelling taken apart. -/
structure ClassifiedName where
  /-- The name without markers. -/
  baseName : String
  /-- The markers. -/
  markers : Markers
  /-- How the name is declared. -/
  kind : Declaration.Kind
  deriving DecidableEq, Repr, Inhabited

namespace ClassifiedName

/-- The spelling of the name with its markers. -/
def spelling (name : ClassifiedName) : String := name.markers.text ++ name.baseName

/-- The name is pinned. -/
def isPinned (name : ClassifiedName) : Bool := name.markers.pinned

/-- The name is marked inner. -/
def isInner (name : ClassifiedName) : Bool := name.markers.isInner

/-- The name is marked conditional. -/
def isConditional (name : ClassifiedName) : Bool := name.markers.isConditional

end ClassifiedName

/-- A declaration with its spelling taken apart, if the spelling has the form of a marked name. -/
def Declaration.classify (declaration : Declaration) : Except Fault ClassifiedName :=
  (Decomposition.ofSpelling declaration.spelling).map fun decomposition =>
    ⟨decomposition.baseName, decomposition.markers, declaration.kind⟩

end GrammarCatalog
