/-
**Lists as output.**

A list is written with one entry on each line, or as a JSON array and a line feed.  Names can be
listed with all that is known about them: as a table with one line for each name, or as JSON
records.

Main definitions:

* `GrammarCatalog.Listing.lines`, `GrammarCatalog.Listing.json` — a list in either form;
* `GrammarCatalog.Listing.texts` — a list of texts;
* `GrammarCatalog.Listing.tableRow`, `GrammarCatalog.Listing.record` — a name with all that is known
  about it;
* `GrammarCatalog.Listing.names` — a list of names.
-/

import GrammarCatalog.CommandLine.Command
import GrammarCatalog.CommandLine.Output
import GrammarCatalog.Declaration.JsonForm
import GrammarCatalog.Json.Writer

set_option relaxedAutoImplicit false
set_option autoImplicit false

namespace GrammarCatalog.Listing

open Output

/-- Entries on lines of their own. -/
def lines (entries : List String) : List Piece := entries.map fun entry => ⟨.plain, entry ++ "\n"⟩

/-- A JSON value spread over lines, with a line feed behind it. -/
def json (value : Json) : List Piece := [⟨.serialized, value.pretty⟩, ⟨.plain, "\n"⟩]

/-- A list of texts. -/
def texts (format : Format) (entries : List String) : List Piece :=
  match format with
  | .text => lines entries
  | .json => json (.ofStrings entries)

/-! ### Names with all that is known about them -/

/-- The words for the markers of a name. -/
def flagWords (name : ClassifiedName) : List String :=
  (if name.isPinned then ["pinned"] else []) ++ (if name.isInner then ["inner"] else []) ++
    if name.isConditional then ["conditional"] else []

/-- A text with spaces behind it up to a width. -/
def padRight (width : Nat) (text : String) : String :=
  text ++ String.ofList (List.replicate (width - text.length) ' ')

/-- The length in bytes of the longest base name. -/
def nameWidth (names : List ClassifiedName) : Nat :=
  names.foldl (fun width name => max width name.baseName.utf8ByteSize) 0

/-- The width of the column for the way of declaring. -/
def kindWidth : Nat := 5

/-- A row of the table of names: base name, way of declaring, spelling, and the words for the
markers if there are any. -/
def tableRow (width : Nat) (name : ClassifiedName) : String :=
  let flags := flagWords name
  padRight width name.baseName ++ "  " ++ padRight kindWidth name.kind.name ++ "  " ++
    name.spelling ++ if flags.isEmpty then "" else "  " ++ ", ".intercalate flags

/-- The JSON record of a name. -/
def record (name : ClassifiedName) : Json :=
  .ofFields [("name", .ofString name.baseName), ("spelling", .ofString name.spelling),
    ("kind", name.kind.toJson), ("pinned", .bool name.isPinned), ("inner", .bool name.isInner),
    ("conditional", .bool name.isConditional)]

/-- A list of names: the base names alone, or with all that is known about them. -/
def names (format : Format) (markers : Bool) (names : List ClassifiedName) : List Piece :=
  match markers, format with
  | false, format => texts format (names.map ClassifiedName.baseName)
  | true, .text => lines (names.map (tableRow (nameWidth names)))
  | true, .json => json (.array (names.map record))

end GrammarCatalog.Listing
