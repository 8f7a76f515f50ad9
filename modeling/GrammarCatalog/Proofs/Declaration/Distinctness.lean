/-
**Names that differ in their markers alone.**

A collector keeps each spelling once, whether it comes up as a rule or as an alias, and a spelling
is known by its base name and its markers.  So no two names that a policy selects agree in both,
whatever their kinds are.  They may agree in the base name: it is listed once for each choice of
markers that it is declared with and that the policy admits, and such names are neither merged nor
listed again.  There are six choices of markers, and without further ado two of them are admitted.

Main definitions:

* `GrammarCatalog.Markers.all`, `GrammarCatalog.Policy.admitted` — all markers, and those that a
  policy admits;
* `GrammarCatalog.Collected.Declares` — a base name is declared with some markers, and listed under
  a policy.

Main results:

* `GrammarCatalog.Collector.nodup_spellings_run` — a run collects no spelling twice;
* `GrammarCatalog.ClassifiedName.nodup_markers` — names of one base name differ in their markers;
* `GrammarCatalog.Collected.markers_perm` — the markers of the names of one base name;
* `GrammarCatalog.Collected.select_run_distinct` — **names are neither merged nor repeated**.
-/

import GrammarCatalog.Proofs.Declaration.Reordering

set_option relaxedAutoImplicit false
set_option autoImplicit false

namespace GrammarCatalog

open Decomposition (ofSpelling ofSpelling_eq_ok_iff startsLower)

/-! ### Markers and policies -/

/-- All markers that a name can have. -/
def Markers.all : List Markers :=
  [⟨false, .visible⟩, ⟨false, .inner⟩, ⟨false, .conditional⟩, ⟨true, .visible⟩, ⟨true, .inner⟩,
    ⟨true, .conditional⟩]

theorem Markers.mem_all (markers : Markers) : markers ∈ all := by
  obtain ⟨pinned, visibility⟩ := markers
  cases pinned <;> cases visibility <;> decide

theorem Markers.nodup_all : all.Nodup := by decide

namespace Policy

variable {policy : Policy} {markers : Markers}

/-- No switch that rules on the markers is off. -/
def admitsMarkers (policy : Policy) (markers : Markers) : Bool :=
  (!markers.pinned || policy.showPinned) && (!markers.isInner || policy.showInner) &&
    (!markers.isConditional || policy.showConditional)

/-- Only the markers of a name matter. -/
theorem admits_eq (policy : Policy) (name : ClassifiedName) :
    policy.admits name = policy.admitsMarkers name.markers := rfl

/-- The markers that a policy admits. -/
def admitted (policy : Policy) : List Markers := Markers.all.filter policy.admitsMarkers

theorem mem_admitted : markers ∈ policy.admitted ↔ policy.admitsMarkers markers = true := by
  rw [admitted, List.mem_filter, and_iff_right markers.mem_all]

theorem nodup_admitted (policy : Policy) : policy.admitted.Nodup := Markers.nodup_all.filter _

theorem length_admitted_le (policy : Policy) : policy.admitted.length ≤ 6 :=
  List.length_filter_le _ _

end Policy

/-! ### Names of one base name -/

namespace ClassifiedName

variable {names : List ClassifiedName} {base : String}

/-- The names that have a base name. -/
def named (base : String) (names : List ClassifiedName) : List ClassifiedName :=
  names.filter fun name => name.baseName = base

theorem mem_named {name : ClassifiedName} :
    name ∈ named base names ↔ name ∈ names ∧ name.baseName = base := by
  rw [named, List.mem_filter, decide_eq_true_iff]

/-- A base name comes up once for each name that has it. -/
theorem count_baseName (base : String) (names : List ClassifiedName) :
    (names.map baseName).count base = (named base names).length := by
  rw [List.count_eq_length_filter, List.filter_map, List.length_map, named]
  rfl

/-- Names with different spellings differ in the base name or in the markers. -/
theorem nodup_parts (h : (names.map spelling).Nodup) :
    (names.map fun name => (name.baseName, name.markers)).Nodup := by
  refine List.Nodup.of_map (fun parts : String × Markers => parts.2.text ++ parts.1) ?_
  rw [List.map_map]
  exact h

/-- Names of one base name differ in their markers if their spellings differ. -/
theorem nodup_markers (h : (names.map spelling).Nodup) (base : String) :
    ((named base names).map markers).Nodup := by
  refine List.Nodup.of_map (fun markers => markers.text ++ base) ?_
  have hspelling : ((named base names).map markers).map (fun markers => markers.text ++ base) =
      (named base names).map spelling := by
    rw [List.map_map]
    refine List.map_congr_left fun name hname => ?_
    rw [← (mem_named.1 hname).2]
    rfl
  rw [hspelling]
  exact h.sublist (List.filter_sublist.map spelling)

end ClassifiedName

open ClassifiedName (named)

/-! ### What is collected and selected -/

namespace Collector

/-- A run collects no spelling twice, neither as a rule and as an alias nor under one kind. -/
theorem nodup_spellings_run (steps : List Step) :
    ((run steps).collected.declarations.map Declaration.spelling).Nodup := by
  rw [(gathers_run steps).spellings_eq]
  exact Declaration.nodup_firstSeen _

end Collector

namespace Collected

variable {collected : Collected} {policy : Policy} {all : List ClassifiedName} {base : String}
  {markers : Markers}

/-- The base name is declared with the markers, by a rule or by an alias that the policy lists. -/
def Declares (collected : Collected) (policy : Policy) (base : String) (markers : Markers) : Prop :=
  markers.text ++ base ∈ collected.ruleNames ∨
    policy.showAlias = true ∧ markers.text ++ base ∈ collected.aliasNames

instance (policy : Policy) (base : String) (markers : Markers) :
    Decidable (collected.Declares policy base markers) :=
  inferInstanceAs (Decidable (_ ∨ _ ∧ _))

/-- A base name is declared with markers when a declaration of that spelling is listed. -/
theorem declares_iff : collected.Declares policy base markers ↔
    ∃ kind, ⟨markers.text ++ base, kind⟩ ∈ collected.declarations ∧
      (kind == .rule || policy.showAlias) = true := by
  simp only [declarations, rules, aliases, List.mem_append, List.mem_map, Declaration.mk.injEq]
  constructor
  · rintro (hrule | ⟨hshown, halias⟩)
    · exact ⟨.rule, Or.inl ⟨_, hrule, rfl, rfl⟩, rfl⟩
    · exact ⟨.aliased, Or.inr ⟨_, halias, rfl, rfl⟩, hshown⟩
  · rintro ⟨kind, ⟨spelling, hrule, rfl, rfl⟩ | ⟨spelling, halias, rfl, rfl⟩, hlisted⟩
    · exact Or.inl hrule
    · exact Or.inr ⟨hlisted, halias⟩

/-- The names that a policy selects have the markers that it admits and that their base names are
declared with. -/
theorem exists_mem_filter_iff (h : collected.declarations.mapM Declaration.classify = .ok all)
    (hbase : startsLower base.toList = true) :
    (∃ name ∈ all.filter policy.lists, name.baseName = base ∧ name.markers = markers) ↔
      policy.admitsMarkers markers = true ∧ collected.Declares policy base markers := by
  obtain ⟨hdeclarations, hlower⟩ := Declaration.mapM_classify_eq_ok_iff.1 h
  rw [declares_iff, ← hdeclarations]
  constructor
  · rintro ⟨name, hname, rfl, rfl⟩
    obtain ⟨hmem, hlists⟩ := List.mem_filter.1 hname
    obtain ⟨hadmits, hkind⟩ := Bool.and_eq_true_iff.1 hlists
    rw [policy.admits_eq] at hadmits
    exact ⟨hadmits, name.kind, List.mem_map.2 ⟨name, hmem, rfl⟩, hkind⟩
  · rintro ⟨hadmits, kind, hmem, hkind⟩
    obtain ⟨name, hname, hdeclaration⟩ := List.mem_map.1 hmem
    obtain ⟨hspelling, rfl⟩ := Declaration.mk.inj hdeclaration
    -- the spelling can be taken apart in one way only
    have hparts : ofSpelling (markers.text ++ base) = .ok ⟨base, markers⟩ :=
      ofSpelling_eq_ok_iff.2 ⟨rfl, hbase⟩
    have hparts' : ofSpelling (markers.text ++ base) = .ok ⟨name.baseName, name.markers⟩ :=
      ofSpelling_eq_ok_iff.2 ⟨hspelling, hlower name hname⟩
    obtain ⟨rfl, rfl⟩ := Decomposition.mk.inj (Except.ok.inj (hparts'.symm.trans hparts))
    rw [← policy.admits_eq] at hadmits
    exact ⟨name, List.mem_filter.2 ⟨hname, Bool.and_eq_true_iff.2 ⟨hadmits, hkind⟩⟩, rfl, rfl⟩

/-- Names with the spellings of different declarations have different spellings. -/
theorem nodup_filter_spelling
    (h : collected.declarations.mapM Declaration.classify = .ok all)
    (hdistinct : (collected.declarations.map Declaration.spelling).Nodup) (policy : Policy) :
    ((all.filter policy.lists).map ClassifiedName.spelling).Nodup := by
  have hspellings : all.map ClassifiedName.spelling =
      collected.declarations.map Declaration.spelling := by
    rw [← (Declaration.mapM_classify_eq_ok_iff.1 h).1, List.map_map]
    rfl
  rw [← hspellings] at hdistinct
  exact hdistinct.sublist (List.filter_sublist.map _)

/-- The markers of the names of one base name are those that the policy admits and that the base
name is declared with, each of them once. -/
theorem markers_perm (h : collected.declarations.mapM Declaration.classify = .ok all)
    (hdistinct : (collected.declarations.map Declaration.spelling).Nodup) (policy : Policy)
    (hbase : startsLower base.toList = true) :
    ((named base (all.filter policy.lists)).map ClassifiedName.markers).Perm
      (policy.admitted.filter fun markers => collected.Declares policy base markers) := by
  refine (List.perm_ext_iff_of_nodup
    (ClassifiedName.nodup_markers (nodup_filter_spelling h hdistinct policy) base)
    (policy.nodup_admitted.filter _)).2 fun markers => ?_
  rw [List.mem_filter, Policy.mem_admitted, decide_eq_true_iff, ← exists_mem_filter_iff h hbase]
  simp only [List.mem_map, ClassifiedName.mem_named, and_assoc]

/-- A base name is listed no more often than there are markers that the policy admits. -/
theorem count_baseName_le (h : collected.declarations.mapM Declaration.classify = .ok all)
    (hdistinct : (collected.declarations.map Declaration.spelling).Nodup) (policy : Policy)
    (base : String) :
    ((all.filter policy.lists).map ClassifiedName.baseName).count base ≤
      policy.admitted.length := by
  have hnodup := ClassifiedName.nodup_markers (nodup_filter_spelling h hdistinct policy) base
  rw [ClassifiedName.count_baseName, ← List.length_map ClassifiedName.markers]
  refine (List.subperm_of_subset hnodup fun markers hmarkers => ?_).length_le
  obtain ⟨name, hname, rfl⟩ := List.mem_map.1 hmarkers
  have hlists := (List.mem_filter.1 (ClassifiedName.mem_named.1 hname).1).2
  rw [Policy.mem_admitted, ← policy.admits_eq]
  exact (Bool.and_eq_true_iff.1 hlists).1

/-- **Names are neither merged nor repeated.**  Whatever was done with a collector, if the spellings
that it collected can be taken apart, then no two names that a policy selects agree in base name and
markers, of whatever kind they are.  The names of one base name have the markers that the policy
admits and that the base name is declared with, by a rule or a listed alias, and each of them once.
So a base name is listed that often: at most six times, and at most twice without further ado. -/
theorem select_run_distinct (steps : List Collector.Step) (policy : Policy)
    (hparts : ∀ spelling ∈ (Collector.run steps).collected.ruleNames ++
      (Collector.run steps).collected.aliasNames, ∃ parts, ofSpelling spelling = .ok parts) :
    ∃ names bases, (Collector.run steps).collected.select policy = .ok names ∧
      (Collector.run steps).collected.baseNames policy = .ok bases ∧
      (names.map fun name => (name.baseName, name.markers)).Nodup ∧
      (∀ base, startsLower base.toList = true →
        ((named base names).map ClassifiedName.markers).Perm (policy.admitted.filter fun markers =>
          (Collector.run steps).collected.Declares policy base markers) ∧
        bases.count base = (policy.admitted.filter fun markers =>
          (Collector.run steps).collected.Declares policy base markers).length) ∧
      (∀ base ∈ bases, startsLower base.toList = true) ∧
      (∀ base, bases.count base ≤ 6) ∧
      (policy = {} → ∀ base, bases.count base ≤ 2) := by
  have hdistinct := Collector.nodup_spellings_run steps
  obtain ⟨all, hall⟩ := exists_names_of_spellings hparts
  have hselect := select_eq_filter hall policy
  have hcount := count_baseName_le hall hdistinct policy
  refine ⟨all.filter policy.lists, (all.filter policy.lists).map ClassifiedName.baseName, hselect,
    ?_, ClassifiedName.nodup_parts (nodup_filter_spelling hall hdistinct policy), ?_, ?_, ?_, ?_⟩
  · rw [baseNames, hselect]
    rfl
  · intro base hbase
    have hmarkers := markers_perm hall hdistinct policy hbase
    refine ⟨hmarkers, ?_⟩
    rw [ClassifiedName.count_baseName, ← hmarkers.length_eq, List.length_map]
  · intro base hmem
    obtain ⟨name, hname, rfl⟩ := List.mem_map.1 hmem
    exact (Declaration.mapM_classify_eq_ok_iff.1 hall).2 name (List.mem_filter.1 hname).1
  · intro base
    exact (hcount base).trans policy.length_admitted_le
  · rintro rfl base
    exact hcount base

/-- A name that comes up as an alias behind a rule of the same spelling is not listed again, and a
misshapen node between two rules does not matter. -/
theorem select_run_distinct_thrice :
    (Collector.run [.record ⟨"a", .rule⟩, .record ⟨"?a", .aliased⟩, .record ⟨"a", .aliased⟩,
      .visit (.node .rule [] .origin), .record ⟨"!_a", .rule⟩]).collected =
        ⟨["a", "!_a"], ["?a"]⟩ ∧
    (∀ spelling ∈ ["a", "!_a"] ++ ["?a"], ∃ parts, ofSpelling spelling = .ok parts) ∧
    ∃ bases, Collected.baseNames ⟨["a", "!_a"], ["?a"]⟩ .everything = .ok bases ∧
      bases.count "a" = 3 := by
  have hrun : (Collector.run [.record ⟨"a", .rule⟩, .record ⟨"?a", .aliased⟩,
      .record ⟨"a", .aliased⟩, .visit (.node .rule [] .origin), .record ⟨"!_a", .rule⟩]).collected =
        ⟨["a", "!_a"], ["?a"]⟩ := by decide
  have hparts : ∀ spelling ∈ ["a", "!_a"] ++ ["?a"], ∃ parts, ofSpelling spelling = .ok parts := by
    simp only [List.cons_append, List.nil_append, List.forall_mem_cons]
    exact ⟨⟨_, rfl⟩, ⟨_, rfl⟩, ⟨_, rfl⟩, by simp⟩
  obtain ⟨names, bases, -, hbases, -, hmarkers, -⟩ := select_run_distinct
    [.record ⟨"a", .rule⟩, .record ⟨"?a", .aliased⟩, .record ⟨"a", .aliased⟩,
      .visit (.node .rule [] .origin), .record ⟨"!_a", .rule⟩] .everything (by rwa [hrun])
  rw [hrun] at hbases hmarkers
  refine ⟨hrun, hparts, bases, hbases, ?_⟩
  rw [(hmarkers "a" (by decide)).2]
  decide

end Collected

end GrammarCatalog
