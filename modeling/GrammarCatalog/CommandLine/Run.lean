/-
**Carrying out commands.**

A command reads its file, finds the tree, works out its output, and then writes it.  Nothing is
written when the file cannot be read or has no tree.

Main definitions:

* `GrammarCatalog.ReadError`, `GrammarCatalog.decodeFile` — why a file has no text, and the text of
  its bytes;
* `GrammarCatalog.Command.output` — the output of a command on the text of its file;
* `GrammarCatalog.Command.plan`, `GrammarCatalog.Command.run` — what a command writes, and the sink
  after it was carried out.
-/

import GrammarCatalog.CommandLine.Listing
import GrammarCatalog.Declaration.Selection
import GrammarCatalog.Declaration.StartSymbols

set_option relaxedAutoImplicit false
set_option autoImplicit false

namespace GrammarCatalog

/-! ### The text of a file -/

/-- Why a file has no text. -/
inductive ReadError where
  /-- There is no such file. -/
  | missing
  /-- The bytes of the file are not the UTF-8 form of a text. -/
  | notText
  /-- What else the system says. -/
  | other (cause : String)
  deriving DecidableEq, Repr, Inhabited

/-- What is said when a file has no text. -/
def ReadError.cause : ReadError → String
  | missing => "No such file or directory (os error 2)"
  | notText => "stream did not contain valid UTF-8"
  | other cause => cause

/-- The text of the bytes of a file. -/
def decodeFile (bytes : ByteArray) : Except ReadError String :=
  match String.fromUTF8? bytes with
  | some text => .ok text
  | none => .error .notText

/-! ### Commands -/

/-- What keeps a command from being carried out. -/
inductive CommandFailure where
  /-- A problem with its file or its output. -/
  | problem (problem : Problem)
  /-- A promise was broken. -/
  | broken (fault : Fault)
  deriving DecidableEq, Repr, Inhabited

/-- The failure of a command on a file whose text cannot be answered. -/
def Failure.inFile (path : String) : Failure → CommandFailure
  | .rejected error => .problem (.ofParseError path error)
  | .broken fault => .broken fault

namespace Command

/-- The output of a command on the tree of its file. -/
def outputOfTree (command : Command) (tree : Tree) : Except Fault (List Output.Piece) :=
  match command with
  | .names _ filter format markers => do
      let collected ← tree.collect
      return Listing.names format markers (← collected.select filter.policy)
  | .startSymbols _ extra filter format => do
      let collected ← tree.collect
      let selected ← collected.baseNames filter.policy
      return Listing.texts format (GrammarCatalog.startSymbols selected extra)
  | .tree _ style => return [⟨.plain, tree.outline style⟩]

/-- The output of a command on the text of its file. -/
def output (command : Command) (source : String) : Except CommandFailure (List Output.Piece) := do
  let tree ← (Tree.ofSource source).mapError (Failure.inFile command.file)
  (command.outputOfTree tree).mapError .broken

/-- What a command writes, given what its file holds. -/
def plan (command : Command) (content : Except ReadError String) :
    Except CommandFailure (List Output.Piece) := do
  let source ← content.mapError fun error =>
    .problem ⟨.unreadable command.file error.cause, none⟩
  command.output source

/-- The sink after a command was carried out, given what its file holds, and the failure of the
command if it failed.  A command without output leaves the sink as it is. -/
def run (command : Command) (content : Except ReadError String) (sink : Output.Sink) :
    Output.Sink × Option CommandFailure :=
  match command.plan content with
  | .error failure => (sink, some failure)
  | .ok pieces => ((sink.writeAll pieces).1, (sink.writeAll pieces).2.map .problem)

end Command

end GrammarCatalog
