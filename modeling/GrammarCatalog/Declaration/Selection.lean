/-
**Selecting names.**

From the collected declarations, a policy selects the names to list: the rules and, if it lists
aliases, the aliases behind them, each taken apart and kept when its markers are admitted.  The
base names of the selection may repeat, when names differ in their markers alone.

Main definitions:

* `GrammarCatalog.Collected.candidates` — the declarations that a policy looks at;
* `GrammarCatalog.Collected.select` — the names that it selects;
* `GrammarCatalog.Collected.baseNames` — their base names;
* `GrammarCatalog.Collected.ofSource`, `GrammarCatalog.ruleNames` — from the text of a grammar.

Main results:

* `GrammarCatalog.Collected.ofSource_eq_ok_iff` — the declarations of a text are those of its tree.
-/

import GrammarCatalog.Declaration.Collector
import GrammarCatalog.Declaration.Policy
import GrammarCatalog.Tree.OfSource

set_option relaxedAutoImplicit false
set_option autoImplicit false

namespace GrammarCatalog

namespace Collected

/-- The declarations that a policy looks at: rules, and aliases unless they are left out. -/
def candidates (collected : Collected) (policy : Policy) : List Declaration :=
  collected.rules ++ if policy.showAlias then collected.aliases else []

/-- The names that a policy selects, in the order of their declarations.  Every candidate is taken
apart, whether it is selected or not. -/
def select (collected : Collected) (policy : Policy) : Except Fault (List ClassifiedName) :=
  ((collected.candidates policy).mapM Declaration.classify).map (·.filter policy.admits)

/-- The base names of the names that a policy selects. -/
def baseNames (collected : Collected) (policy : Policy) : Except Fault (List String) :=
  (collected.select policy).map (·.map ClassifiedName.baseName)

/-- The declarations of a grammar text. -/
def ofSource (source : String) : Except Failure Collected := do
  let tree ← Tree.ofSource source
  tree.collect.mapError .broken

theorem ofSource_eq_ok_iff {source : String} {collected : Collected} :
    ofSource source = .ok collected ↔
      ∃ tree, Tree.ofSource source = .ok tree ∧ tree.collect = .ok collected := by
  rw [ofSource]
  cases Tree.ofSource source with
  | error failure => simp [bind, Except.bind]
  | ok tree =>
      change tree.collect.mapError Failure.broken = .ok collected ↔ _
      constructor
      · intro h
        cases hcollect : tree.collect with
        | error fault => rw [hcollect] at h; contradiction
        | ok other =>
            rw [hcollect] at h
            obtain rfl : other = collected := Except.ok.inj h
            exact ⟨tree, rfl, hcollect⟩
      · rintro ⟨_, htree, hcollect⟩
        obtain rfl := Except.ok.inj htree
        rw [hcollect]
        rfl

end Collected

/-- The base names that a policy selects from a grammar text. -/
def ruleNames (source : String) (policy : Policy) : Except Failure (List String) := do
  let collected ← Collected.ofSource source
  (collected.baseNames policy).mapError .broken

end GrammarCatalog
