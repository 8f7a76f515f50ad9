/-
**Spans of a grammar text.**

A span is a range of byte offsets together with the line and the column at which it starts.  Every
token and every node of a tree carries one, so that a failure can point at the text it is about.
Lines and columns count from one, columns in characters.

Main definitions:

* `GrammarCatalog.Span` — a range and its starting position;
* `GrammarCatalog.Span.merge` — the span from the start of one to the end of another;
* `GrammarCatalog.Span.text?`, `GrammarCatalog.Span.lineText?` — what a span covers, and the line it
  starts on, when the offsets fall between characters.

Main results:

* `GrammarCatalog.Span.merge_assoc` — merging is associative;
* `GrammarCatalog.Span.lineText?_congr` — the line shown depends on the start alone.
-/

import GrammarCatalog.Text.Cut
import GrammarCatalog.Text.Line

set_option relaxedAutoImplicit false
set_option autoImplicit false

namespace GrammarCatalog

/-- A range of bytes of a text, with the line and the column of its start. -/
structure Span where
  /-- Offset of the first byte. -/
  start : Nat
  /-- Offset of the byte after the last one. -/
  stop : Nat
  /-- Line of the start, counted from one. -/
  line : Nat
  /-- Column of the start, counted from one. -/
  column : Nat
  deriving DecidableEq, Repr, Inhabited

namespace Span

/-- The empty span at the start of a text. -/
def origin : Span := ⟨0, 0, 1, 1⟩

/-- The span from the start of the first to the end that lies farther on. -/
def merge (left right : Span) : Span := { left with stop := max right.stop left.stop }

/-- The empty span at the start of a span. -/
def collapse (span : Span) : Span := { span with stop := span.start }

/-- The number of bytes of a span. -/
def length (span : Span) : Nat := span.stop - span.start

/-- A span is empty when it ends where it starts. -/
def isEmpty (span : Span) : Bool := span.start == span.stop

/-- The text that a span covers; none when the span is no range of the text. -/
def text? (span : Span) (source : String) : Option String :=
  (Text.slice? span.start span.stop source.toList).map String.ofList

/-- The line on which a span starts, without the carriage returns at its end; a start beyond the
text counts as its end.  None when the start lies inside a character. -/
def lineText? (span : Span) (source : String) : Option String :=
  (Text.cut? (min span.start (Text.byteLength source.toList)) source.toList).map fun parts =>
    String.ofList (Text.lineAround parts.1 parts.2)

/-! ### Merging -/

theorem merge_assoc (first second third : Span) :
    (first.merge second).merge third = first.merge (second.merge third) := by
  simp only [merge, mk.injEq, and_true, true_and]
  omega

/-! ### Lines -/

/-- Spans with one start lie on one line. -/
theorem lineText?_congr {left right : Span} (h : left.start = right.start) (source : String) :
    left.lineText? source = right.lineText? source := by
  simp [lineText?, h]

end Span

end GrammarCatalog
