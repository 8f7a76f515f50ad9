/-
**Faults.**

A fault is a promise that a caller has broken: a tree without the shape that trees of a text have,
a spelling that no text can bring about, or a place that lies inside a character.  No grammar text
leads to one.

Main definitions:

* `GrammarCatalog.Fault` — what was wrong;
* `GrammarCatalog.Fault.message?` — the wording, for the faults that have one.
-/

import GrammarCatalog.Text.Quoted
import GrammarCatalog.Tree.Basic

set_option relaxedAutoImplicit false
set_option autoImplicit false

namespace GrammarCatalog

/-- What is wrong with the children of a node. -/
inductive Misshape where
  /-- The name of a rule is missing. -/
  | firstChildNoRuleName
  /-- An alternative has some other number of children than two. -/
  | childCount (count : Nat)
  /-- The alias of an alternative is not the name of a rule. -/
  | targetNoRuleName
  deriving DecidableEq, Repr, Inhabited

/-- The wording of a misshape. -/
def Misshape.message : Misshape → String
  | firstChildNoRuleName => "first child is not a rule name"
  | childCount count => "expected 2 children, found " ++ count.repr
  | targetNoRuleName => "target is not a rule name"

/-- A broken promise of a caller. -/
inductive Fault where
  /-- A node without the shape of its kind. -/
  | malformedNode (kind : NodeKind) (line column : Nat) (misshape : Misshape)
  /-- A spelling without the form of a marked name. -/
  | undecodable (spelling : String)
  /-- A place that is not between two characters. -/
  | badPlace
  deriving DecidableEq, Repr, Inhabited

/-- The wording of a fault; a place inside a character has none. -/
def Fault.message? : Fault → Option String
  | malformedNode kind line column misshape =>
      some ("malformed " ++ kind.name ++ " node at " ++ line.repr ++ ":" ++ column.repr ++ ": " ++
        misshape.message)
  | undecodable spelling =>
      some ("cannot decode declaration markers in " ++ Text.quoted spelling)
  | badPlace => none

end GrammarCatalog
