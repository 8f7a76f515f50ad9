/-
**Blank characters.**

A character is blank when Unicode gives it the property White_Space.  The line feed is blank too,
but it ends a line, so skipping the space inside a line needs the narrower class of the blanks
that are not line feeds.

Main definitions:

* `GrammarCatalog.Text.isBlank` — the property White_Space;
* `GrammarCatalog.Text.isSpacing` — a blank other than the line feed.
-/

import GrammarCatalog.Text.CodeRanges

set_option relaxedAutoImplicit false
set_option autoImplicit false

namespace GrammarCatalog.Text

/-- The code points with the property White_Space. -/
def blankRanges : CodeRanges :=
  [(0x09, 0x0D), (0x20, 0x20), (0x85, 0x85), (0xA0, 0xA0), (0x1680, 0x1680), (0x2000, 0x200A),
    (0x2028, 0x2029), (0x202F, 0x202F), (0x205F, 0x205F), (0x3000, 0x3000)]

/-- A character is blank when it has the property White_Space. -/
def isBlank (c : Char) : Bool := blankRanges.covers c

/-- A blank that does not end a line. -/
def isSpacing (c : Char) : Bool := c != '\n' && isBlank c

@[simp] theorem isBlank_newline : isBlank '\n' = true := by decide

@[simp] theorem isSpacing_newline : isSpacing '\n' = false := by decide

theorem isSpacing_iff (c : Char) : isSpacing c = true ↔ c ≠ '\n' ∧ isBlank c = true := by
  simp [isSpacing]

theorem isBlank_of_isSpacing {c : Char} (h : isSpacing c = true) : isBlank c = true :=
  ((isSpacing_iff c).1 h).2

end GrammarCatalog.Text
