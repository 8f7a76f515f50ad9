/-
**Characters that a quoted text spells out.**

Some characters do not show as themselves: controls, format characters, every space but the plain
one, code points without a character or with a private one, marks that combine with the character
before them, and the fillers and selectors that a display passes over.

Main definitions:

* `GrammarCatalog.Text.isControl`, `GrammarCatalog.Text.isFormat`,
  `GrammarCatalog.Text.isUnusualSpace`, `GrammarCatalog.Text.isPrivate`,
  `GrammarCatalog.Text.isIgnorable` — the classes that have no module of their own;
* `GrammarCatalog.Text.isUnprintable` — the union of all classes.
-/

import GrammarCatalog.Text.Combining
import GrammarCatalog.Text.Unassigned

set_option relaxedAutoImplicit false
set_option autoImplicit false

namespace GrammarCatalog.Text

/-- The control characters, general category Cc. -/
def controlRanges : CodeRanges := [(0x00, 0x1F), (0x7F, 0x9F)]

/-- The format characters, general category Cf. -/
def formatRanges : CodeRanges :=
  [(0xAD, 0xAD), (0x600, 0x605), (0x61C, 0x61C), (0x6DD, 0x6DD), (0x70F, 0x70F), (0x890, 0x891),
    (0x8E2, 0x8E2), (0x180E, 0x180E), (0x200B, 0x200F), (0x202A, 0x202E), (0x2060, 0x2064),
    (0x2066, 0x206F), (0xFEFF, 0xFEFF), (0xFFF9, 0xFFFB), (0x110BD, 0x110BD), (0x110CD, 0x110CD),
    (0x13430, 0x1343F), (0x1BCA0, 0x1BCA3), (0x1D173, 0x1D17A), (0xE0001, 0xE0001),
    (0xE0020, 0xE007F)]

/-- The separators other than the plain space, general categories Zs, Zl and Zp. -/
def unusualSpaceRanges : CodeRanges :=
  [(0xA0, 0xA0), (0x1680, 0x1680), (0x2000, 0x200A), (0x2028, 0x2029), (0x202F, 0x202F),
    (0x205F, 0x205F), (0x3000, 0x3000)]

/-- The code points whose characters are a matter of agreement, general category Co. -/
def privateRanges : CodeRanges :=
  [(0xE000, 0xF8FF), (0xF0000, 0xFFFFD), (0x100000, 0x10FFFD)]

/-- The characters that a display passes over, property Default_Ignorable_Code_Point. -/
def ignorableRanges : CodeRanges :=
  [(0xAD, 0xAD), (0x34F, 0x34F), (0x61C, 0x61C), (0x115F, 0x1160), (0x17B4, 0x17B5),
    (0x180B, 0x180F), (0x200B, 0x200F), (0x202A, 0x202E), (0x2060, 0x206F), (0x3164, 0x3164),
    (0xFE00, 0xFE0F), (0xFEFF, 0xFEFF), (0xFFA0, 0xFFA0), (0xFFF0, 0xFFF8), (0x1BCA0, 0x1BCA3),
    (0x1D173, 0x1D17A), (0xE0000, 0xE0FFF)]

/-- A control character. -/
def isControl (c : Char) : Bool := controlRanges.covers c

/-- A format character. -/
def isFormat (c : Char) : Bool := formatRanges.covers c

/-- A separator other than the plain space. -/
def isUnusualSpace (c : Char) : Bool := unusualSpaceRanges.covers c

/-- A character by private agreement. -/
def isPrivate (c : Char) : Bool := privateRanges.covers c

/-- A character that a display passes over. -/
def isIgnorable (c : Char) : Bool := ignorableRanges.covers c

/-- A character that does not show as itself. -/
def isUnprintable (c : Char) : Bool :=
  isControl c || isFormat c || isUnusualSpace c || isPrivate c || isIgnorable c ||
    isCombining c || isUnassigned c

end GrammarCatalog.Text
