/-
**Outlines of trees.**

An outline shows a tree with one line for each node and each token, indented by its depth.  Empty
slots are shown on request.

Main definitions:

* `GrammarCatalog.Outline.Style` — the width of a level, and whether empty slots are shown;
* `GrammarCatalog.Tree.outlineLines` — the lines of a tree, each with its depth;
* `GrammarCatalog.Tree.outline` — the text of an outline.
-/

import GrammarCatalog.Tree.Basic

set_option relaxedAutoImplicit false
set_option autoImplicit false

namespace GrammarCatalog

/-- How an outline is laid out. -/
structure Outline.Style where
  /-- Number of spaces for each level. -/
  indentWidth : Nat := 2
  /-- Whether empty slots get a line. -/
  showAbsent : Bool := false
  deriving DecidableEq, Repr, Inhabited

/-- A line of an outline: its depth and its text. -/
structure Outline.Line where
  /-- Number of nodes above the line. -/
  depth : Nat
  /-- What the line shows. -/
  text : String
  deriving DecidableEq, Repr, Inhabited

/-- What the line of an empty slot shows. -/
def Outline.absentText : String := "None"

mutual

/-- The lines of a node at a depth: its kind, and the lines of its slots one level deeper. -/
def Tree.outlineLines (showAbsent : Bool) (depth : Nat) : Tree → List Outline.Line
  | .node kind children _ =>
      ⟨depth, kind.name⟩ :: Child.outlineLines showAbsent (depth + 1) children

/-- The lines of slots at a depth: those of the nodes, one for each token, and one for each empty
slot if empty slots are shown. -/
def Child.outlineLines (showAbsent : Bool) (depth : Nat) : List Child → List Outline.Line
  | [] => []
  | .tree node :: children =>
      node.outlineLines showAbsent depth ++ Child.outlineLines showAbsent depth children
  | .token leaf :: children =>
      ⟨depth, leaf.kind.text⟩ :: Child.outlineLines showAbsent depth children
  | .absent :: children =>
      if showAbsent then
        ⟨depth, Outline.absentText⟩ :: Child.outlineLines showAbsent depth children
      else Child.outlineLines showAbsent depth children

end

/-- The characters of a line: spaces for its depth, what it shows, and a line feed. -/
def Outline.Line.render (indentWidth : Nat) (line : Outline.Line) : List Char :=
  List.replicate (line.depth * indentWidth) ' ' ++ line.text.toList ++ ['\n']

/-- The text of the outline of a tree. -/
def Tree.outline (style : Outline.Style) (tree : Tree) : String :=
  String.ofList
    ((tree.outlineLines style.showAbsent 0).flatMap (Outline.Line.render style.indentWidth))

end GrammarCatalog
