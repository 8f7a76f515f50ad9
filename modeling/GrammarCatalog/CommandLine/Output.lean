/-
**Output and the place it goes to.**

A command's output is a list of pieces, written one after the other.  A sink takes pieces until
one of them does not fit; the command then ends with the problem that goes with that piece.  Lines
of text could not be written; the array of a JSON list could not be serialized, but its final line
feed could not be written.

Main definitions:

* `GrammarCatalog.Output.Piece` — a piece of output, with the problem when it does not fit;
* `GrammarCatalog.Output.Sink` — what was written, and how much may be written;
* `GrammarCatalog.Output.Sink.writeAll` — the sink after a list of pieces.

Main results:

* `GrammarCatalog.Output.Sink.writeAll_append` — writing two lists is writing one and then the
  other.
-/

import GrammarCatalog.Problem

set_option relaxedAutoImplicit false
set_option autoImplicit false

namespace GrammarCatalog.Output

/-- What a piece of output is. -/
inductive Role where
  /-- Text that is written as it is. -/
  | plain
  /-- A value in its output form. -/
  | serialized
  deriving DecidableEq, Repr, Inhabited

/-- A piece of output. -/
structure Piece where
  /-- What the piece is. -/
  role : Role
  /-- What is written. -/
  text : String
  deriving DecidableEq, Repr, Inhabited

/-- The problem when a piece is not written, given what the system says. -/
def Role.problem (role : Role) (cause : String) : Problem :=
  match role with
  | plain => ⟨.unwritable cause, none⟩
  | serialized => ⟨.unserializable cause, none⟩

/-- The text of a list of pieces. -/
def text (pieces : List Piece) : String := String.join (pieces.map Piece.text)

/-- A place that output goes to. -/
structure Sink where
  /-- What was written. -/
  written : String := ""
  /-- How many bytes may be written in all, if there is a limit. -/
  limit : Option Nat := none
  deriving DecidableEq, Repr, Inhabited

namespace Sink

/-- What is said when a sink takes no more. -/
def closedCause : String := "closed"

/-- The sink has room for so many bytes in all. -/
def holds (sink : Sink) (size : Nat) : Bool := sink.limit.all fun limit => size ≤ limit

/-- The sink after one more piece; a piece that does not fit is refused as a whole. -/
def write (sink : Sink) (piece : Piece) : Except Problem Sink :=
  let written := sink.written ++ piece.text
  if sink.holds written.utf8ByteSize then .ok { sink with written := written }
  else .error (piece.role.problem closedCause)

/-- The sink after a list of pieces, up to the first one that does not fit, with the problem of
that one. -/
def writeAll (sink : Sink) : List Piece → Sink × Option Problem
  | [] => (sink, none)
  | piece :: pieces =>
      match sink.write piece with
      | .ok next => next.writeAll pieces
      | .error problem => (sink, some problem)

@[simp] theorem writeAll_nil (sink : Sink) : sink.writeAll [] = (sink, none) := rfl

/-- Writing two lists is writing the first and then, unless there was a problem, the second. -/
theorem writeAll_append (sink : Sink) (xs ys : List Piece) :
    sink.writeAll (xs ++ ys) =
      match sink.writeAll xs with
      | (next, none) => next.writeAll ys
      | (next, some problem) => (next, some problem) := by
  induction xs generalizing sink with
  | nil => rfl
  | cons piece xs ih =>
      simp only [List.cons_append, writeAll]
      cases sink.write piece with
      | ok next => exact ih next
      | error problem => rfl

end Sink

end GrammarCatalog.Output
