/-
**Declarations.**

A grammar declares names in two ways: by defining a rule, and by giving an alternative an alias.
A declaration is a name as it is written, markers included, and the way it is declared.

Main definitions:

* `GrammarCatalog.Declaration.Kind`, `GrammarCatalog.Declaration` — ways of declaring, and
  declarations;
* `GrammarCatalog.Tree.declaration?` — the declaration that a node makes, if it makes one.
-/

import GrammarCatalog.Fault

set_option relaxedAutoImplicit false
set_option autoImplicit false

namespace GrammarCatalog

/-- The way in which a name is declared. -/
inductive Declaration.Kind where
  /-- By the definition of a rule. -/
  | rule
  /-- By the alias of an alternative. -/
  | aliased
  deriving DecidableEq, Repr, Inhabited

/-- How a way of declaring is named. -/
def Declaration.Kind.name : Declaration.Kind → String
  | rule => "rule"
  | aliased => "alias"

/-- A declared name as it is written, and how it is declared. -/
structure Declaration where
  /-- The name, markers included. -/
  spelling : String
  /-- How it is declared. -/
  kind : Declaration.Kind
  deriving DecidableEq, Repr, Inhabited

namespace Tree

/-- The fault of a node whose children are not those of its kind. -/
def misshapen (tree : Tree) (misshape : Misshape) : Fault :=
  .malformedNode tree.kind tree.span.line tree.span.column misshape

/-- The declaration of a rule node: the name in its first slot. -/
def ruleDeclaration (tree : Tree) : Except Fault Declaration :=
  match tree.children.head?.bind Child.ruleName? with
  | some spelling => .ok ⟨spelling, .rule⟩
  | none => .error (tree.misshapen .firstChildNoRuleName)

/-- The declaration of an alternative: the name in the second of its two slots, unless that slot
is empty. -/
def aliasDeclaration? (tree : Tree) : Except Fault (Option Declaration) :=
  match tree.children with
  | [_, .absent] => .ok none
  | [_, target] =>
      match target.ruleName? with
      | some spelling => .ok (some ⟨spelling, .aliased⟩)
      | none => .error (tree.misshapen .targetNoRuleName)
  | children => .error (tree.misshapen (.childCount children.length))

/-- The declaration that a node makes by itself, whatever stands below it. -/
def declaration? (tree : Tree) : Except Fault (Option Declaration) :=
  match tree.kind with
  | .rule => some <$> tree.ruleDeclaration
  | .alternative => tree.aliasDeclaration?
  | _ => .ok none

end Tree

end GrammarCatalog
