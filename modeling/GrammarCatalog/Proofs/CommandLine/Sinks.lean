/-
**Output within limits.**

A sink takes all of a list of pieces if it has room for their text, and otherwise all up to the
first one that goes beyond its limit.  What goes wrong then depends on what that piece is.  It does
not depend on how finely the pieces are cut, as long as every cut has the role of what it is cut
from.

Main definitions:

* `GrammarCatalog.Output.Sink.HasRoom` — a sink has room for a text behind what was written;
* `GrammarCatalog.Output.Cuts` — pieces cut into smaller ones.

Main results:

* `GrammarCatalog.Output.Sink.writeAll_of_hasRoom` — a sink takes what it has room for;
* `GrammarCatalog.Output.Sink.exists_writeAll_eq` — and otherwise all up to a piece that does not
  fit;
* `GrammarCatalog.Output.Cuts.problem_writeAll` — **what goes wrong does not depend on how pieces
  are cut**.
-/

import Mathlib.Data.Nat.Notation
import GrammarCatalog.CommandLine.Output

set_option relaxedAutoImplicit false
set_option autoImplicit false

namespace GrammarCatalog.Output

/-! ### Texts of pieces -/

@[simp] theorem text_nil : text [] = "" := rfl

@[simp] theorem text_cons (piece : Piece) (pieces : List Piece) :
    text (piece :: pieces) = piece.text ++ text pieces := by
  rw [text, List.map_cons, String.join_cons, text]

@[simp] theorem text_append (pieces others : List Piece) :
    text (pieces ++ others) = text pieces ++ text others := by
  rw [text, List.map_append, String.join_append, text, text]

/-! ### Room -/

namespace Sink

variable {sink : Sink} {size larger : ℕ}

@[simp] theorem holds_limited (written : String) (limit size : ℕ) :
    (Sink.mk written (some limit)).holds size = decide (size ≤ limit) := rfl

/-- The sink with a text behind what was written. -/
def extend (sink : Sink) (more : String) : Sink := { sink with written := sink.written ++ more }

@[simp] theorem extend_empty (sink : Sink) : sink.extend "" = sink := by simp [extend]

@[simp] theorem extend_extend (sink : Sink) (more further : String) :
    (sink.extend more).extend further = sink.extend (more ++ further) := by
  simp [extend, String.append_assoc]

/-- The sink has room for a text behind what was written. -/
def HasRoom (sink : Sink) (more : String) : Prop :=
  sink.holds (sink.extend more).written.utf8ByteSize = true

theorem holds_of_le (h : sink.holds larger = true) (hle : size ≤ larger) :
    sink.holds size = true := by
  obtain ⟨written, _ | limit⟩ := sink
  · rfl
  · rw [holds_limited, decide_eq_true_eq] at h ⊢
    exact Nat.le_trans hle h

/-- Room for a text is room for its beginning. -/
theorem HasRoom.of_append {more further : String} (h : sink.HasRoom (more ++ further)) :
    sink.HasRoom more := by
  refine holds_of_le h ?_
  simp [extend]

theorem hasRoom_extend {more further : String} :
    (sink.extend more).HasRoom further ↔ sink.HasRoom (more ++ further) := by
  rw [HasRoom, HasRoom, extend_extend]
  rfl

theorem write_of_hasRoom {piece : Piece} (h : sink.HasRoom piece.text) :
    sink.write piece = .ok (sink.extend piece.text) := if_pos h

theorem write_of_not_hasRoom {piece : Piece} (h : ¬sink.HasRoom piece.text) :
    sink.write piece = .error (piece.role.problem closedCause) := if_neg h

/-- A sink takes the pieces that it has room for. -/
theorem writeAll_of_hasRoom {pieces : List Piece} (h : sink.HasRoom (text pieces)) :
    sink.writeAll pieces = (sink.extend (text pieces), none) := by
  induction pieces generalizing sink with
  | nil => simp
  | cons piece pieces ih =>
      rw [text_cons] at h ⊢
      rw [writeAll, write_of_hasRoom h.of_append]
      simp only
      rw [ih (hasRoom_extend.2 h), extend_extend]

/-- A sink that has no room for all of the pieces takes those in front of one that does not fit,
and that one says what goes wrong. -/
theorem exists_writeAll_eq {pieces : List Piece} (hempty : sink.HasRoom "")
    (h : ¬sink.HasRoom (text pieces)) :
    ∃ before piece after, pieces = before ++ piece :: after ∧ sink.HasRoom (text before) ∧
      ¬sink.HasRoom (text (before ++ [piece])) ∧
      sink.writeAll pieces =
        (sink.extend (text before), some (piece.role.problem closedCause)) := by
  induction pieces generalizing sink with
  | nil => exact absurd hempty h
  | cons piece pieces ih =>
      by_cases hpiece : sink.HasRoom piece.text
      · have hextended : (sink.extend piece.text).HasRoom "" := by
          rw [hasRoom_extend, String.append_empty]
          exact hpiece
        rw [text_cons, ← hasRoom_extend] at h
        obtain ⟨before, next, after, rfl, hbefore, hnext, hwrite⟩ := ih hextended h
        refine ⟨piece :: before, next, after, rfl, ?_, ?_, ?_⟩
        · rw [text_cons, ← hasRoom_extend]
          exact hbefore
        · rw [List.cons_append, text_cons, ← hasRoom_extend]
          exact hnext
        · rw [writeAll, write_of_hasRoom hpiece, text_cons, ← extend_extend]
          exact hwrite
      · refine ⟨[], piece, pieces, rfl, hempty, by simpa using hpiece, ?_⟩
        rw [writeAll, write_of_not_hasRoom hpiece, text_nil, extend_empty]

end Sink

/-! ### Cutting -/

/-- Pieces cut into smaller ones, which have the role of what they are cut from. -/
inductive Cuts : List Piece → List Piece → Prop
  /-- Nothing is cut into nothing. -/
  | nil : Cuts [] []
  /-- One more piece is cut. -/
  | cons {piece : Piece} {parts pieces others : List Piece}
      (hroles : ∀ part ∈ parts, part.role = piece.role) (htext : text parts = piece.text)
      (h : Cuts pieces others) : Cuts (piece :: pieces) (parts ++ others)

namespace Cuts

variable {pieces others : List Piece} {sink : Sink}

theorem refl (pieces : List Piece) : Cuts pieces pieces := by
  induction pieces with
  | nil => exact nil
  | cons piece pieces ih =>
      have hroles : ∀ part ∈ [piece], part.role = piece.role := by simp
      exact cons hroles (by simp) ih

theorem text_eq (h : Cuts pieces others) : text others = text pieces := by
  induction h with
  | nil => rfl
  | cons _ htext _ ih => rw [text_append, text_cons, htext, ih]

/-- **What goes wrong does not depend on how pieces are cut.** -/
theorem problem_writeAll (h : Cuts pieces others) (hempty : sink.HasRoom "") :
    (sink.writeAll others).2 = (sink.writeAll pieces).2 := by
  induction h generalizing sink with
  | nil => rfl
  | @cons piece parts pieces others hroles htext _ ih =>
      rw [Sink.writeAll_append]
      by_cases hroom : sink.HasRoom piece.text
      · have hextended : (sink.extend piece.text).HasRoom "" := by
          rw [Sink.hasRoom_extend, String.append_empty]
          exact hroom
        have hparts := hroom
        rw [← htext] at hparts
        rw [Sink.writeAll_of_hasRoom hparts, Sink.writeAll, Sink.write_of_hasRoom hroom, htext]
        exact ih hextended
      · have hparts := hroom
        rw [← htext] at hparts
        obtain ⟨before, part, after, rfl, -, -, hwrite⟩ := Sink.exists_writeAll_eq hempty hparts
        rw [hwrite, Sink.writeAll, Sink.write_of_not_hasRoom hroom, hroles part (by simp)]

end Cuts

end GrammarCatalog.Output
