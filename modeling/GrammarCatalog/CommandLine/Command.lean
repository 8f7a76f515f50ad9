/-
**Commands.**

The program has three commands, each on one grammar file: listing the declared names, listing the
start symbols, and showing the tree.  Lists come as lines of text or as JSON.

Main definitions:

* `GrammarCatalog.Format`, `GrammarCatalog.Command` — forms of output, and commands;
* `GrammarCatalog.Invocation` — a command with the wish for more or less to be logged;
* `GrammarCatalog.LogLevel.ofVerbosity` — what is logged for that wish.
-/

import GrammarCatalog.Declaration.Policy
import GrammarCatalog.Tree.Outline

set_option relaxedAutoImplicit false
set_option autoImplicit false

namespace GrammarCatalog

/-- The form in which a list is written. -/
inductive Format where
  /-- One entry on each line. -/
  | text
  /-- A JSON array. -/
  | json
  deriving DecidableEq, Repr, Inhabited

namespace Format

/-- How a form is named. -/
def name : Format → String
  | text => "text"
  | json => "json"

/-- The form of a name. -/
def ofName? (name : String) : Option Format :=
  [text, json].find? fun format => format.name == name

end Format

/-- What to do with a grammar file. -/
inductive Command where
  /-- List the declared names, on request with all that is known about them. -/
  | names (file : String) (filter : FilterFlags) (format : Format) (markers : Bool)
  /-- List the start symbols: selected names and further ones. -/
  | startSymbols (file : String) (extra : List String) (filter : FilterFlags) (format : Format)
  /-- Show the tree. -/
  | tree (file : String) (style : Outline.Style)
  deriving DecidableEq, Repr, Inhabited

/-- The file that a command reads. -/
def Command.file : Command → String
  | names file _ _ _ | startSymbols file _ _ _ | tree file _ => file

/-- A command, and how often more logging was asked for. -/
structure Invocation where
  /-- How often more logging was asked for. -/
  verbosity : Nat
  /-- What to do. -/
  command : Command
  deriving DecidableEq, Repr, Inhabited

/-! ### Logging -/

/-- The least weight of what is logged. -/
inductive LogLevel where
  | warn
  | info
  | debug
  | trace
  deriving DecidableEq, Repr, Inhabited

namespace LogLevel

/-- How a level is named. -/
def name : LogLevel → String
  | warn => "warn"
  | info => "info"
  | debug => "debug"
  | trace => "trace"

/-- What is logged when more logging was asked for that often. -/
def ofVerbosity : Nat → LogLevel
  | 0 => warn
  | 1 => info
  | 2 => debug
  | _ => trace

end LogLevel

end GrammarCatalog
