/-
**The order of statements.**

When the statements of a grammar change places, a name that is declared as a rule and as an alias
may change from one list to the other, and names change their positions.  But each name comes up as
often as before, that is once in both lists together.  With aliases listed, what a policy makes of
a name depends on its spelling alone; so the base names are the same in another order, and the
start symbols are the same.

Main definitions:

* `GrammarCatalog.Policy.baseName?` — what a policy lists for a spelling, whatever its kind.

Main results:

* `GrammarCatalog.Collector.Gathers.spellings_perm` — the same spellings come up in events that
  spell the same;
* `GrammarCatalog.Collected.baseNames_eq_filterMap` — base names are read off the spellings;
* `GrammarCatalog.Tree.baseNames_of_perm` — **statements in another order** give the same names.
-/

import GrammarCatalog.Proofs.Declaration.Filtering
import GrammarCatalog.Proofs.Declaration.NoFault
import GrammarCatalog.Proofs.Declaration.Origins
import GrammarCatalog.Proofs.Declaration.StartSymbols

set_option relaxedAutoImplicit false
set_option autoImplicit false

namespace GrammarCatalog

/-! ### What comes up -/

/-- Slots in another order make the same events in another order. -/
theorem Child.made_perm {slots others : List Child} (h : slots.Perm others) :
    (made slots).Perm (made others) := by
  rw [made, made, Tree.preorderAll_eq_flatMap, Tree.preorderAll_eq_flatMap]
  exact ((h.filterMap _).flatMap fun node _ => List.Perm.refl _).filterMap _

namespace Collector.Gathers

variable {collector other : Collector} {events others : List Declaration}

theorem spellings_eq (h : collector.Gathers events) :
    collector.collected.declarations.map Declaration.spelling =
      Declaration.firstSeen .rule events ++ Declaration.firstSeen .aliased events := by
  rw [Collected.map_spelling_declarations, h.ruleNames, h.aliasNames]

/-- Each spelling comes up once, so the same spellings come up, in some order, whenever the events
spell the same. -/
theorem spellings_perm (h : collector.Gathers events) (hother : other.Gathers others)
    (hsame : ∀ name, name ∈ events.map Declaration.spelling ↔
      name ∈ others.map Declaration.spelling) :
    (collector.collected.declarations.map Declaration.spelling).Perm
      (other.collected.declarations.map Declaration.spelling) := by
  rw [h.spellings_eq, hother.spellings_eq]
  refine (List.perm_ext_iff_of_nodup (Declaration.nodup_firstSeen events)
    (Declaration.nodup_firstSeen others)).2 fun name => ?_
  rw [List.mem_append, List.mem_append, Declaration.mem_firstSeen_or, Declaration.mem_firstSeen_or,
    hsame]

end Collector.Gathers

/-! ### What is listed -/

/-- The base name that a policy lists for a spelling, if it admits the markers.  The kind of the
declaration does not matter. -/
def Policy.baseName? (policy : Policy) (spelling : String) : Option String :=
  match Decomposition.ofSpelling spelling with
  | .ok parts =>
      if policy.admits ⟨parts.baseName, parts.markers, .rule⟩ then some parts.baseName else none
  | .error _ => none

theorem Policy.baseName?_spelling (policy : Policy) {name : ClassifiedName}
    (h : Decomposition.startsLower name.baseName.toList = true) :
    policy.baseName? name.spelling =
      if policy.admits name then some name.baseName else none := by
  have hparts : Decomposition.ofSpelling name.spelling = .ok ⟨name.baseName, name.markers⟩ :=
    Decomposition.ofSpelling_eq_ok_iff.2 ⟨rfl, h⟩
  rw [baseName?, hparts]
  rfl

/-- Of the spellings of names, a policy lists the base names of those that it admits. -/
theorem Policy.filterMap_baseName? (policy : Policy) {names : List ClassifiedName}
    (h : ∀ name ∈ names, Decomposition.startsLower name.baseName.toList = true) :
    (names.map ClassifiedName.spelling).filterMap policy.baseName? =
      (names.filter policy.admits).map ClassifiedName.baseName := by
  induction names with
  | nil => rfl
  | cons name names ih =>
      obtain ⟨hname, hnames⟩ := List.forall_mem_cons.1 h
      have hfirst := policy.baseName?_spelling hname
      cases hadmits : policy.admits name with
      | true =>
          rw [hadmits, if_pos rfl] at hfirst
          rw [List.map_cons, List.filterMap_cons_some hfirst, ih hnames,
            List.filter_cons_of_pos hadmits, List.map_cons]
      | false =>
          rw [hadmits, if_neg Bool.false_ne_true] at hfirst
          rw [List.map_cons, List.filterMap_cons_none hfirst, ih hnames,
            List.filter_cons_of_neg (by simp [hadmits])]

namespace Collected

variable {collected : Collected} {policy : Policy}

/-- With aliases listed, the base names are read off the spellings. -/
theorem baseNames_eq_filterMap (halias : policy.showAlias = true)
    (h : ∀ declaration ∈ collected.declarations,
      Decomposition.IsDeclared declaration.spelling.toList) :
    collected.baseNames policy =
      .ok ((collected.declarations.map Declaration.spelling).filterMap policy.baseName?) := by
  obtain ⟨names, hnames, -⟩ := exists_classify_eq_ok h
  obtain ⟨hdeclarations, hlower⟩ := Declaration.mapM_classify_eq_ok_iff.1 hnames
  have hcandidates : collected.candidates policy = collected.declarations := by
    rw [candidates, if_pos halias, declarations]
  rw [baseNames, select, hcandidates, hnames, ← hdeclarations, List.map_map]
  exact congrArg Except.ok (policy.filterMap_baseName? hlower).symm

end Collected

/-! ### Statements in another order -/

namespace Tree

variable {source : String} {tree tree' : Tree}

/-- A tree of a text stands for a whole grammar. -/
theorem kind_ofSource (h : ofSource source = .ok tree) : tree.kind = .start := by
  obtain ⟨trees, r, rfl, -, -⟩ := ofSource_eq_ok_iff.1 h
  rfl

/-- With the statements in another order, a tree has the same nodes below it. -/
theorem isShapely_of_perm (h : ofSource source = .ok tree) (hkind : tree'.kind = tree.kind)
    (hperm : tree'.children.Perm tree.children) :
    ∀ node ∈ tree'.preorder, node.isShapely = true := by
  intro node hnode
  rw [preorder_eq, List.mem_cons] at hnode
  rcases hnode with rfl | hnode
  · rw [isShapely, hkind, kind_ofSource h]
  · refine isShapely_of_mem_preorder h ?_
    rw [preorder_eq]
    refine List.mem_cons_of_mem _ ?_
    exact ((hperm.filterMap _).flatMap fun child _ => List.Perm.refl _).mem_iff.1 hnode

/-- With the statements in another order, the same events are made in another order. -/
theorem made_perm_of_perm (h : ofSource source = .ok tree) (hkind : tree'.kind = tree.kind)
    (hperm : tree'.children.Perm tree.children) :
    (Child.made [.tree tree']).Perm (Child.made [.tree tree]) := by
  have hstart := kind_ofSource h
  obtain ⟨kind, slots, span⟩ := tree
  obtain ⟨kind', slots', span'⟩ := tree'
  obtain rfl : kind' = kind := hkind
  obtain rfl : kind' = .start := hstart
  rw [Child.made_node rfl, Child.made_node rfl]
  exact Child.made_perm hperm

/-- **Statements in another order** give the same names in another order: with aliases listed, each
base name is listed as often as before, and the start symbols are the same. -/
theorem baseNames_of_perm (h : ofSource source = .ok tree) (hkind : tree'.kind = tree.kind)
    (hperm : tree'.children.Perm tree.children) {policy : Policy}
    (halias : policy.showAlias = true) :
    ∃ collected collected' names names',
      tree.collect = .ok collected ∧ tree'.collect = .ok collected' ∧
      collected.baseNames policy = .ok names ∧ collected'.baseNames policy = .ok names' ∧
      names'.Perm names ∧ ∀ extra, startSymbols names' extra = startSymbols names extra := by
  obtain ⟨collector, hcollect, hgathers⟩ := collect_ofSource h
  obtain ⟨collector', hcollect', hgathers'⟩ :=
    collect_of_isShapely (isShapely_of_perm h hkind hperm)
  have hmade := made_perm_of_perm h hkind hperm
  have hspellings : (collector'.collected.declarations.map Declaration.spelling).Perm
      (collector.collected.declarations.map Declaration.spelling) :=
    hgathers'.spellings_perm hgathers fun name => (hmade.map Declaration.spelling).mem_iff
  have hdeclared : ∀ declaration ∈ collector.collected.declarations,
      Decomposition.IsDeclared declaration.spelling.toList := by
    obtain ⟨collected, hcollected, hall⟩ := exists_collect_eq_ok h
    obtain rfl : collector.collected = collected := Except.ok.inj (hcollect.symm.trans hcollected)
    exact hall
  have hdeclared' : ∀ declaration ∈ collector'.collected.declarations,
      Decomposition.IsDeclared declaration.spelling.toList := by
    intro declaration hdeclaration
    obtain ⟨other, hother, hspelling⟩ :=
      List.mem_map.1 (hspellings.mem_iff.1 (List.mem_map_of_mem hdeclaration))
    rw [← hspelling]
    exact hdeclared other hother
  have hnames := hspellings.filterMap policy.baseName?
  refine ⟨_, _, _, _, hcollect, hcollect', Collected.baseNames_eq_filterMap halias hdeclared,
    Collected.baseNames_eq_filterMap halias hdeclared', hnames, fun extra => ?_⟩
  exact startSymbols_congr fun name => by rw [hnames.mem_iff]

set_option maxRecDepth 4000 in
/-- The alias of the first statement is the rule of the second: it comes up as an alias, and with
the statements in the other order as a rule. -/
theorem baseNames_of_swap :
    ∃ tree, ofSource "a: b -> c\nc: d" = .ok tree ∧ tree.collect = .ok ⟨["a"], ["c"]⟩ ∧
      (node tree.kind tree.children.reverse tree.span).collect = .ok ⟨["c", "a"], []⟩ ∧
      ∃ collected collected' names names',
        tree.collect = .ok collected ∧
        (node tree.kind tree.children.reverse tree.span).collect = .ok collected' ∧
        collected.baseNames {} = .ok names ∧ collected'.baseNames {} = .ok names' ∧
        names'.Perm names ∧ ∀ extra, startSymbols names' extra = startSymbols names extra := by
  have hcollect : (ofSource "a: b -> c\nc: d").toOption.map (fun tree =>
      (tree.collect.toOption,
        (node tree.kind tree.children.reverse tree.span).collect.toOption)) =
      some (some ⟨["a"], ["c"]⟩, some ⟨["c", "a"], []⟩) := by cbv
  cases htree : ofSource "a: b -> c\nc: d" with
  | error failure => rw [htree] at hcollect; contradiction
  | ok tree =>
      have hkind : (node tree.kind tree.children.reverse tree.span).kind = tree.kind := rfl
      have halias : Policy.showAlias {} = true := rfl
      obtain ⟨collected, collected', names, names', hbefore, hafter, hnames⟩ :=
        baseNames_of_perm htree hkind (List.reverse_perm tree.children) halias
      rw [htree] at hcollect
      change some (tree.collect.toOption, _) = _ at hcollect
      rw [hbefore, hafter] at hcollect
      cases hcollect
      exact ⟨tree, rfl, hbefore, hafter, _, _, names, names', hbefore, hafter, hnames⟩

end Tree

end GrammarCatalog
