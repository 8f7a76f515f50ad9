/-
**Character classes as lists of code point ranges.**

A class of characters that a standard fixes by enumeration is kept here as a list of closed
ranges of code points, in ascending order.  The tables themselves stand in the modules named for
the class; this one says what belonging to a table means.

Main definitions:

* `GrammarCatalog.Text.CodeRanges` — a table of closed ranges;
* `GrammarCatalog.Text.CodeRanges.covers` — a character belongs to a table.
-/

set_option relaxedAutoImplicit false
set_option autoImplicit false

namespace GrammarCatalog.Text

/-- A class of characters: closed ranges of code points, each given by its first and last. -/
abbrev CodeRanges := List (Nat × Nat)

/-- A character belongs to a table when one of the ranges holds its code point. -/
def CodeRanges.covers (ranges : CodeRanges) (c : Char) : Bool :=
  ranges.any fun range => range.1 ≤ c.toNat && c.toNat ≤ range.2

end GrammarCatalog.Text
