/-
**Collecting declarations.**

A collector takes declarations one after the other and keeps each spelling once, under the kind it
was first declared with.  It can be fed declarations, single nodes, and whole trees; a tree is
visited parents first, so a rule comes before the aliases in its body.  A node without the shape
of its kind stops the visit, and what was collected before it stays.

Main definitions:

* `GrammarCatalog.Collected` — rule names and alias names, each in the order they came up;
* `GrammarCatalog.Collector` — what was collected, with the set of spellings that came up;
* `GrammarCatalog.Collector.record`, `GrammarCatalog.Collector.visit`,
  `GrammarCatalog.Collector.visitAll` — taking a declaration, a node, a tree.

Main results:

* `GrammarCatalog.Collector.record_of_mem`, `GrammarCatalog.Collector.record_of_notMem` — a
  declaration is kept exactly when its spelling is new.
-/

import GrammarCatalog.Declaration.Basic

set_option relaxedAutoImplicit false
set_option autoImplicit false

namespace GrammarCatalog

/-! ### What is collected -/

/-- The names that a grammar declares, in the order they come up. -/
structure Collected where
  /-- The names that came up first as rules. -/
  ruleNames : List String := []
  /-- The names that came up first as aliases. -/
  aliasNames : List String := []
  deriving DecidableEq, Repr, Inhabited

namespace Collected

/-- The declarations of rules. -/
def rules (collected : Collected) : List Declaration :=
  collected.ruleNames.map fun spelling => ⟨spelling, .rule⟩

/-- The declarations of aliases. -/
def aliases (collected : Collected) : List Declaration :=
  collected.aliasNames.map fun spelling => ⟨spelling, .aliased⟩

/-- All declarations: rules, then aliases. -/
def declarations (collected : Collected) : List Declaration := collected.rules ++ collected.aliases

/-- The number of declarations. -/
def size (collected : Collected) : Nat :=
  collected.ruleNames.length + collected.aliasNames.length

/-- Nothing was declared. -/
def isEmpty (collected : Collected) : Bool :=
  collected.ruleNames.isEmpty && collected.aliasNames.isEmpty

/-- One more declaration, behind those of its kind. -/
def push (collected : Collected) (declaration : Declaration) : Collected :=
  match declaration.kind with
  | .rule => { collected with ruleNames := collected.ruleNames ++ [declaration.spelling] }
  | .aliased => { collected with aliasNames := collected.aliasNames ++ [declaration.spelling] }

end Collected

/-! ### The collector -/

/-- What was collected so far, and the spellings that came up so far. -/
structure Collector where
  /-- The spellings that came up. -/
  seen : List String := []
  /-- What was collected. -/
  collected : Collected := {}
  deriving DecidableEq, Repr, Inhabited

namespace Collector

/-- Takes a declaration: it is kept unless its spelling came up before, under either kind.  The
answer says whether it was kept. -/
def record (collector : Collector) (declaration : Declaration) : Bool × Collector :=
  if collector.seen.contains declaration.spelling then (false, collector)
  else
    (true,
      { seen := declaration.spelling :: collector.seen
        collected := collector.collected.push declaration })

/-- Takes the declaration that a node makes by itself. -/
def visit (collector : Collector) (tree : Tree) : Except Fault Collector :=
  match tree.declaration? with
  | .ok (some declaration) => .ok (collector.record declaration).2
  | .ok none => .ok collector
  | .error fault => .error fault

/-- Takes the declarations of nodes, up to the first node that is misshapen. -/
def visitEach (collector : Collector) : List Tree → Collector × Option Fault
  | [] => (collector, none)
  | tree :: others =>
      match collector.visit tree with
      | .ok next => next.visitEach others
      | .error fault => (collector, some fault)

/-- Takes the declarations of a node and of all nodes below it, parents first. -/
def visitAll (collector : Collector) (tree : Tree) : Collector × Option Fault :=
  collector.visitEach tree.topdown

theorem record_of_mem {collector : Collector} {declaration : Declaration}
    (h : declaration.spelling ∈ collector.seen) :
    collector.record declaration = (false, collector) := by
  simp [record, h]

theorem record_of_notMem {collector : Collector} {declaration : Declaration}
    (h : declaration.spelling ∉ collector.seen) :
    collector.record declaration =
      (true,
        { seen := declaration.spelling :: collector.seen
          collected := collector.collected.push declaration }) := by
  simp [record, h]

end Collector

/-- The declarations of a tree. -/
def Tree.collect (tree : Tree) : Except Fault Collected :=
  match Collector.visitAll {} tree with
  | (collector, none) => .ok collector.collected
  | (_, some fault) => .error fault

end GrammarCatalog
