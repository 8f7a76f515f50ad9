/-
**The program.**

Reads the command line, carries out the command, and writes its output to standard output.  What
went wrong is reported on standard error, and the exit code tells: two for a command line that is
not carried out, one for a command that failed.

Main definitions:

* `main` — the program.
-/

import GrammarCatalog.CommandLine.Arguments
import GrammarCatalog.CommandLine.Run

set_option relaxedAutoImplicit false
set_option autoImplicit false

namespace GrammarCatalog.Main

/-- The text of a file. -/
def readSource (path : String) : IO (Except ReadError String) := do
  try
    return decodeFile (← IO.FS.readBinFile path)
  catch error =>
    match error with
    | .noFileOrDirectory .. => return .error .missing
    | error => return .error (.other (toString error))

/-- Writes a list of pieces, up to the first one that cannot be written. -/
def writePieces (out : IO.FS.Stream) : List Output.Piece → IO (Option Problem)
  | [] => return none
  | piece :: pieces => do
      try
        out.putStr piece.text
      catch error =>
        return some (piece.role.problem (toString error))
      writePieces out pieces

/-- Reports a failure. -/
def reportFailure (failure : CommandFailure) : IO Unit :=
  match failure with
  | .problem problem => IO.eprintln problem.report
  | .broken fault => IO.eprintln (fault.message?.getD "broken promise")

/-- Carries out a command, and gives the exit code. -/
def carryOut (command : Command) : IO UInt32 := do
  let out ← IO.getStdout
  match command.plan (← readSource command.file) with
  | .error failure =>
      reportFailure failure
      return 1
  | .ok pieces =>
      match ← writePieces out pieces with
      | none => return 0
      | some problem =>
          reportFailure (.problem problem)
          return 1

/-- The version of the program. -/
def version : String := "0.1.0"

/-- What is said about a command line that is not carried out. -/
def usage : String :=
  "usage: names|start-symbols|tree FILE [options]; names and start symbols take --show-inner, " ++
    "--show-conditional, --hide-alias, --hide-pinned, --all and --format text|json; names takes " ++
    "--markers, start-symbols takes --extra NAME, tree takes --show-absent and --indent WIDTH; " ++
    "-v asks for more logging"

end GrammarCatalog.Main

open GrammarCatalog in
/-- The program. -/
def main (words : List String) : IO UInt32 := do
  match Invocation.ofWords words with
  | .ok invocation => Main.carryOut invocation.command
  | .error .helpRequested =>
      IO.println Main.usage
      return 0
  | .error .versionRequested =>
      IO.println Main.version
      return 0
  | .error _ =>
      IO.eprintln Main.usage
      return 2
