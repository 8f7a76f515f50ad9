/-
**Tokens farther down.**

A text that stands below another one has the tokens that it has by itself, moved by the bytes and
the lines above it.  Nothing that a scan does depends on where it is: steps are moved with it.

Main definitions:

* `GrammarCatalog.Span.shift`, `GrammarCatalog.Token.shift` — a span and a token, moved by some
  bytes and lines;
* `GrammarCatalog.Scan.shift` — a scan, moved likewise.

Main results:

* `GrammarCatalog.Span.merge_shift` — merging spans goes with moving them;
* `GrammarCatalog.Scan.significant_shift` — **the tokens of a moved scan are moved**.
-/

import GrammarCatalog.Proofs.Token.Steps

set_option relaxedAutoImplicit false
set_option autoImplicit false

namespace GrammarCatalog

/-! ### Places -/

namespace Span

/-- The span moved by some bytes and lines; columns stay. -/
def shift (bytes lines : Nat) (span : Span) : Span :=
  ⟨span.start + bytes, span.stop + bytes, span.line + lines, span.column⟩

@[simp] theorem shift_zero (span : Span) : span.shift 0 0 = span := rfl

variable (bytes lines : Nat)

@[simp] theorem merge_shift (left right : Span) :
    (left.shift bytes lines).merge (right.shift bytes lines) =
      (left.merge right).shift bytes lines := by
  simp only [shift, merge, mk.injEq, and_true, true_and]
  omega

end Span

namespace Text.Cursor

/-- The place moved by some bytes and lines. -/
def shift (bytes lines : Nat) (cursor : Cursor) : Cursor :=
  ⟨cursor.offset + bytes, cursor.line + lines, cursor.column⟩

variable (bytes lines : Nat)

theorem step_shift (cursor : Cursor) (c : Char) :
    (cursor.shift bytes lines).step c = (cursor.step c).shift bytes lines := by
  unfold step
  split
  · simp only [shift, mk.injEq, and_true]
    omega
  · simp only [shift, mk.injEq, and_true]
    omega

theorem advance_shift (cursor : Cursor) (cs : List Char) :
    (cursor.shift bytes lines).advance cs = (cursor.advance cs).shift bytes lines := by
  induction cs generalizing cursor with
  | nil => rfl
  | cons c cs ih => rw [advance_cons, step_shift, ih, advance_cons]

theorem spanOf_shift (cursor : Cursor) (text : List Char) :
    (cursor.shift bytes lines).spanOf text = (cursor.spanOf text).shift bytes lines := by
  simp only [spanOf, advance_shift]
  rfl

end Text.Cursor

/-- The token moved by some bytes and lines. -/
def Token.shift (bytes lines : Nat) (token : Token) : Token :=
  { token with span := token.span.shift bytes lines }

@[simp] theorem Token.span_shift (bytes lines : Nat) (token : Token) :
    (token.shift bytes lines).span = token.span.shift bytes lines := rfl

@[simp] theorem Token.shift_zero (token : Token) : token.shift 0 0 = token := rfl

/-! ### Scans -/

namespace Scan

/-- The scan moved by some bytes and lines. -/
def shift (bytes lines : Nat) (scan : Scan) : Scan :=
  { scan with cursor := scan.cursor.shift bytes lines }

variable (bytes lines : Nat) {scan : Scan}

theorem past_shift (gap rest : List Char) :
    (scan.shift bytes lines).past gap rest = (scan.past gap rest).shift bytes lines := by
  simp [past, shift, Text.Cursor.advance_shift]

theorem emit_shift (kind : TokenKind) (text rest : List Char) :
    (scan.shift bytes lines).emit kind text rest =
      (((scan.emit kind text rest).1.shift bytes lines),
        (scan.emit kind text rest).2.shift bytes lines) := by
  simp only [emit, shift, Text.Cursor.advance_shift]
  rfl

/-- A step of a moved scan is the step of the scan, moved. -/
theorem Step.shift {next : Token × Scan} (h : Step scan next) :
    Step (scan.shift bytes lines) (next.1.shift bytes lines, next.2.shift bytes lines) := by
  cases h with
  | finish hgap hline =>
      have hstep : Step (scan.shift bytes lines) _ := .finish hgap hline
      rw [past_shift] at hstep
      have hcursor : (scan.shift bytes lines).cursor = scan.cursor.shift bytes lines := rfl
      rw [hcursor, Text.Cursor.advance_shift, Text.Cursor.spanOf_shift] at hstep
      exact hstep
  | newline hrest hspaces hbreaks hfirst hnext hafter hpipe =>
      rw [← emit_shift, ← past_shift]
      exact .newline hrest hspaces hbreaks hfirst hnext hafter hpipe
  | lexeme hrest hgap hc hline =>
      rw [← emit_shift, ← past_shift]
      exact .lexeme hrest hgap hc hline

/-- **The tokens of a moved scan are moved.** -/
theorem significant_shift (scan : Scan) : (scan.shift bytes lines).significant =
    scan.significant.map (Token.shift bytes lines) := by
  refine tokens_induction (motive := fun scan _ => (scan.shift bytes lines).significant =
    scan.significant.map (Token.shift bytes lines)) ?_ ?_ scan
  · intro scan token after hstep hend
    rw [significant_of_end hstep hend, significant_of_end (hstep.shift bytes lines) hend]
    rfl
  · intro scan token after hstep hkind ih
    by_cases htrivia : token.kind.isTrivia = true
    · rw [significant_of_comment hstep htrivia,
        significant_of_comment (hstep.shift bytes lines) htrivia, ih]
    · have htrivia := Bool.eq_false_iff.2 htrivia
      rw [significant_of_step hstep hkind htrivia,
        significant_of_step (hstep.shift bytes lines) hkind htrivia, ih, List.map_cons]

end Scan

end GrammarCatalog
