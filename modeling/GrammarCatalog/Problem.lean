/-
**Problems and their reports.**

A command ends with a problem when its file cannot be read, has no tree, or its output cannot be
written.  A report tells of the problem on a few lines: what went wrong, where, and the line of
the text it is about.

Main definitions:

* `GrammarCatalog.Problem.Kind`, `GrammarCatalog.Problem.Place`, `GrammarCatalog.Problem` — what
  went wrong, and where;
* `GrammarCatalog.Problem.message`, `GrammarCatalog.Problem.report` — the first line of a report,
  and all of it.
-/

import GrammarCatalog.Tree.OfSource

set_option relaxedAutoImplicit false
set_option autoImplicit false

namespace GrammarCatalog

namespace ParseError

/-- The wording of a parse error with its position. -/
def display (error : ParseError) : String :=
  "parse error at " ++ error.line.repr ++ ":" ++ error.column.repr ++ ": " ++ error.message

end ParseError

namespace Problem

/-- What went wrong. -/
inductive Kind where
  /-- A text has no tree. -/
  | parse (error : ParseError)
  /-- A file could not be read. -/
  | unreadable (path cause : String)
  /-- The output could not be written. -/
  | unwritable (cause : String)
  /-- A value could not be put into its output form. -/
  | unserializable (message : String)
  deriving DecidableEq, Repr, Inhabited

/-- The wording of what went wrong. -/
def Kind.message : Kind → String
  | parse error => error.display
  | unreadable path cause => "cannot read " ++ path ++ ": " ++ cause
  | unwritable cause => "cannot write output: " ++ cause
  | unserializable message => "serialization error: " ++ message

/-- Line and column of a parse error. -/
def Kind.position? : Kind → Option (Nat × Nat)
  | parse error => some (error.line, error.column)
  | _ => none

/-- What the system said, where it was the system that refused. -/
def Kind.cause? : Kind → Option String
  | unreadable _ cause | unwritable cause => some cause
  | _ => none

/-- Where something went wrong: a file, and a line and column in it. -/
structure Place where
  /-- The file as it was named. -/
  source : Option String := none
  /-- Line and column. -/
  position : Option (Nat × Nat) := none
  deriving DecidableEq, Repr, Inhabited

/-- The wording of a place: the file, with the position if there is one.  A position without a
file says nothing. -/
def Place.text (place : Place) : String :=
  match place.source, place.position with
  | some source, some (line, column) =>
      "at " ++ source ++ ":" ++ line.repr ++ ":" ++ column.repr
  | some source, none => "at " ++ source
  | none, _ => ""

end Problem

/-- What went wrong, and where if that is known. -/
structure Problem where
  /-- What went wrong. -/
  kind : Problem.Kind
  /-- Where it went wrong. -/
  place : Option Problem.Place := none
  deriving DecidableEq, Repr, Inhabited

namespace Problem

/-- The wording of a problem. -/
def message (problem : Problem) : String := problem.kind.message

/-- The text of a line of a report behind the first one; a line without text is left out. -/
def detailLine (lead text : String) : String :=
  if text.isEmpty then "" else "\n  " ++ lead ++ text

/-- The report of a problem: the problem, its place, and for a parse error the line of the text
that it is about. -/
def report (problem : Problem) : String :=
  let place := (problem.place.map Place.text).getD ""
  let lineText :=
    match problem.kind with
    | .parse error => error.lineText
    | _ => ""
  "error: " ++ problem.message ++ detailLine "" place ++ detailLine "| " lineText

/-- The problem of a parse error in a file. -/
def ofParseError (path : String) (error : ParseError) : Problem :=
  ⟨.parse error, some ⟨some path, some (error.line, error.column)⟩⟩

end Problem

end GrammarCatalog
