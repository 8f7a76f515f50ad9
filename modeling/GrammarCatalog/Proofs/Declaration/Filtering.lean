/-
**What a policy leaves of the collected names.**

A policy has four gates, one for each of its switches, and a name passes when every gate that
applies to it is open.  Three of the gates ask for a marker, so they stand behind taking spellings
apart; the gate of aliases asks for the kind of a declaration and stands in front of it.  All the
same, what a policy selects is what all four gates leave of one list, the list of all names taken
apart, unless a spelling that is looked at cannot be taken apart.

Names may repeat in that list, so what is left is told by positions.

Main definitions:

* `GrammarCatalog.ClassifiedName.declaration` — the declaration that was taken apart;
* `GrammarCatalog.Policy.Gate`, `GrammarCatalog.Policy.isOpen` — the four gates of a policy;
* `GrammarCatalog.Policy.both`, `GrammarCatalog.Policy.Below` — policies compared switch by switch;
* `GrammarCatalog.Policy.lists`, `GrammarCatalog.Policy.positions` — the names that a policy keeps,
  and where they stand.

Main results:

* `GrammarCatalog.Declaration.mapM_classify_eq_ok_iff` — declarations are taken apart into the names
  that they are put together from;
* `GrammarCatalog.Policy.lists_iff` — a name is kept when the gates that apply to it are open;
* `GrammarCatalog.Collected.exists_select_eq_error_iff` — when selecting has a fault;
* `GrammarCatalog.Collected.select_filters` — **selecting filters one list**.
-/

import GrammarCatalog.Declaration.Selection
import Mathlib.Data.List.Basic
import Mathlib.Data.List.Induction
import Mathlib.Tactic.ByContra

set_option relaxedAutoImplicit false
set_option autoImplicit false

namespace GrammarCatalog

open Decomposition (startsLower)

/-! ### Declarations and names -/

/-- The declaration of a name: its spelling, and how it is declared. -/
def ClassifiedName.declaration (name : ClassifiedName) : Declaration := ⟨name.spelling, name.kind⟩

namespace Declaration

variable {declaration : Declaration} {declarations : List Declaration} {name : ClassifiedName}
  {names : List ClassifiedName}

/-- A declaration is taken apart into the name that it is put together from. -/
theorem classify_eq_ok_iff : declaration.classify = .ok name ↔
    name.declaration = declaration ∧ startsLower name.baseName.toList = true := by
  obtain ⟨baseName, markers, kind⟩ := name
  obtain ⟨spelling, declared⟩ := declaration
  -- the spelling decides the markers and the base name, and the kind is handed through
  have hparts : classify ⟨spelling, declared⟩ = .ok ⟨baseName, markers, kind⟩ ↔
      Decomposition.ofSpelling spelling = .ok ⟨baseName, markers⟩ ∧ declared = kind := by
    rw [classify]
    cases Decomposition.ofSpelling spelling with
    | error fault => simp [Except.map]
    | ok parts =>
        obtain ⟨base, marked⟩ := parts
        simp [Except.map, and_assoc]
  have hdeclaration :
      ClassifiedName.declaration ⟨baseName, markers, kind⟩ = ⟨spelling, declared⟩ ↔
        Decomposition.spelling ⟨baseName, markers⟩ = spelling ∧ declared = kind := by
    rw [ClassifiedName.declaration, Declaration.mk.injEq, eq_comm (a := kind)]
    rfl
  rw [hparts, hdeclaration, Decomposition.ofSpelling_eq_ok_iff]
  exact and_right_comm

/-- Declarations are taken apart into the names that they are put together from. -/
theorem mapM_classify_eq_ok_iff : declarations.mapM classify = .ok names ↔
    names.map ClassifiedName.declaration = declarations ∧
      ∀ name ∈ names, startsLower name.baseName.toList = true := by
  induction declarations generalizing names with
  | nil =>
      rw [List.map_eq_nil_iff]
      constructor
      · intro h
        cases h
        simp
      · rintro ⟨rfl, -⟩
        rfl
  | cons declaration declarations ih =>
      rw [List.mapM_cons]
      constructor
      · intro h
        cases hfirst : declaration.classify with
        | error fault => simp [hfirst, bind, Except.bind] at h
        | ok first =>
            cases hothers : declarations.mapM classify with
            | error fault => simp [hfirst, hothers, bind, Except.bind] at h
            | ok others =>
                obtain rfl : first :: others = names := by
                  simpa [hfirst, hothers, bind, Except.bind, pure, Except.pure] using h
                obtain ⟨hdeclaration, hlower⟩ := classify_eq_ok_iff.1 hfirst
                obtain ⟨hdeclarations, hall⟩ := ih.1 hothers
                refine ⟨by rw [List.map_cons, hdeclaration, hdeclarations], ?_⟩
                exact List.forall_mem_cons.2 ⟨hlower, hall⟩
      · rintro ⟨hmap, hall⟩
        obtain ⟨first, others, rfl, hdeclaration, hdeclarations⟩ := List.map_eq_cons_iff.1 hmap
        obtain ⟨hlower, hothers⟩ := List.forall_mem_cons.1 hall
        rw [classify_eq_ok_iff.2 ⟨hdeclaration, hlower⟩, ih.2 ⟨hdeclarations, hothers⟩]
        rfl

/-- Taking declarations apart has a fault when one of them cannot be taken apart. -/
theorem exists_mapM_classify_eq_error_iff :
    (∃ fault, declarations.mapM classify = .error fault) ↔
      ∃ declaration ∈ declarations, ∃ fault, declaration.classify = .error fault := by
  induction declarations with
  | nil => simp [pure, Except.pure]
  | cons declaration declarations ih =>
      simp only [List.mapM_cons, List.mem_cons, exists_eq_or_imp, ← ih]
      cases declaration.classify with
      | error fault => simp [bind, Except.bind]
      | ok first =>
          cases declarations.mapM classify with
          | error fault => simp [bind, Except.bind]
          | ok others => simp [bind, Except.bind, pure, Except.pure]

/-- It is the spelling that cannot be taken apart, whatever the kind. -/
theorem exists_classify_eq_error_iff :
    (∃ fault, declaration.classify = .error fault) ↔
      ∃ fault, Decomposition.ofSpelling declaration.spelling = .error fault := by
  rw [classify]
  cases Decomposition.ofSpelling declaration.spelling with
  | error fault => simp [Except.map]
  | ok parts => simp [Except.map]

end Declaration

/-! ### Gates -/

namespace Policy

/-- A gate of a policy: each is closed by one switch. -/
inductive Gate where
  /-- For names marked inner. -/
  | inner
  /-- For names marked conditional. -/
  | conditional
  /-- For aliases. -/
  | aliased
  /-- For pinned names. -/
  | pinned
  deriving DecidableEq, Repr

/-- The gate applies to a name. -/
def Gate.appliesTo (name : ClassifiedName) : Gate → Bool
  | inner => name.isInner
  | conditional => name.isConditional
  | aliased => name.kind == .aliased
  | pinned => name.isPinned

/-- The gate is open under a policy. -/
def isOpen (policy : Policy) : Gate → Bool
  | .inner => policy.showInner
  | .conditional => policy.showConditional
  | .aliased => policy.showAlias
  | .pinned => policy.showPinned

/-- The policy whose switches are on when they are on under both of two policies. -/
def both (policy other : Policy) : Policy where
  showInner := policy.showInner && other.showInner
  showConditional := policy.showConditional && other.showConditional
  showAlias := policy.showAlias && other.showAlias
  showPinned := policy.showPinned && other.showPinned

/-- Each switch that is on under the one policy is on under the other. -/
def Below (policy other : Policy) : Prop :=
  ∀ gate, policy.isOpen gate = true → other.isOpen gate = true

/-- The policy keeps the name: it admits the markers, and lists what is declared in that way. -/
def lists (policy : Policy) (name : ClassifiedName) : Bool :=
  policy.admits name && (name.kind == .rule || policy.showAlias)

/-- The positions of the names that the policy keeps, in ascending order. -/
def positions (policy : Policy) (names : List ClassifiedName) : List ℕ :=
  (List.range names.length).filter fun position => names[position]?.any policy.lists

variable {policy other : Policy} {name : ClassifiedName} {names : List ClassifiedName}
  {position : ℕ}

@[simp] theorem isOpen_both (gate : Gate) :
    (policy.both other).isOpen gate = (policy.isOpen gate && other.isOpen gate) := by
  cases gate <;> rfl

/-- A name is kept when the gates that apply to it are open. -/
theorem lists_iff : policy.lists name = true ↔
    ∀ gate : Gate, gate.appliesTo name = true → policy.isOpen gate = true := by
  have hgates : (∀ gate : Gate, gate.appliesTo name = true → policy.isOpen gate = true) ↔
      (name.isInner = true → policy.showInner = true) ∧
      (name.isConditional = true → policy.showConditional = true) ∧
      ((name.kind == .aliased) = true → policy.showAlias = true) ∧
      (name.isPinned = true → policy.showPinned = true) := by
    constructor
    · intro h
      exact ⟨h .inner, h .conditional, h .aliased, h .pinned⟩
    · rintro ⟨hinner, hconditional, haliased, hpinned⟩ gate
      cases gate with
      | inner => exact hinner
      | conditional => exact hconditional
      | aliased => exact haliased
      | pinned => exact hpinned
  -- what is no rule is an alias
  have hkind : (name.kind == .rule) = true ∨ policy.showAlias = true ↔
      ((name.kind == .aliased) = true → policy.showAlias = true) := by
    cases name.kind <;> simp
  rw [hgates, lists, admits]
  simp only [Bool.and_eq_true, Bool.or_eq_true, Bool.not_eq_eq_eq_not, Bool.not_true,
    ← Bool.not_eq_true, ← imp_iff_not_or, hkind]
  constructor
  · rintro ⟨⟨⟨hpinned, hinner⟩, hconditional⟩, haliased⟩
    exact ⟨hinner, hconditional, haliased, hpinned⟩
  · rintro ⟨hinner, hconditional, haliased, hpinned⟩
    exact ⟨⟨⟨hpinned, hinner⟩, hconditional⟩, haliased⟩

theorem lists_everything : everything.lists name = true := by
  rw [lists, admits_everything]
  simp [everything]

theorem lists_both : (policy.both other).lists name = (policy.lists name && other.lists name) := by
  rw [Bool.eq_iff_iff, Bool.and_eq_true, lists_iff, lists_iff, lists_iff]
  simp only [isOpen_both, Bool.and_eq_true]
  exact ⟨fun h => ⟨fun gate hgate => (h gate hgate).1, fun gate hgate => (h gate hgate).2⟩,
    fun h gate hgate => ⟨h.1 gate hgate, h.2 gate hgate⟩⟩

theorem Below.lists (h : policy.Below other) (hname : policy.lists name = true) :
    other.lists name = true :=
  lists_iff.2 fun gate hgate => h gate (lists_iff.1 hname gate hgate)

/-- What another policy keeps and this one does not is stopped at a gate that only the other
opens. -/
theorem exists_gate_of_lists (hother : other.lists name = true) (hnot : ¬policy.lists name = true) :
    ∃ gate : Gate, gate.appliesTo name = true ∧
      policy.isOpen gate = false ∧ other.isOpen gate = true := by
  by_contra hnone
  refine hnot (lists_iff.2 fun gate hgate => ?_)
  by_contra hclosed
  exact hnone ⟨gate, hgate, by simpa using hclosed, lists_iff.1 hother gate hgate⟩

/-! ### Positions -/

theorem mem_positions : position ∈ policy.positions names ↔
    ∃ name, names[position]? = some name ∧ policy.lists name = true := by
  rw [positions, List.mem_filter, List.mem_range, Option.any_eq_true]
  constructor
  · rintro ⟨-, name, hname, hlists⟩
    exact ⟨name, hname, hlists⟩
  · rintro ⟨name, hname, hlists⟩
    exact ⟨(List.getElem?_eq_some_iff.1 hname).1, name, hname, hlists⟩

/-- The names at the positions that are kept are the names that are kept. -/
theorem filterMap_positions (policy : Policy) (names : List ClassifiedName) :
    (policy.positions names).filterMap (names[·]?) = names.filter policy.lists := by
  induction names using List.reverseRecOn with
  | nil => rfl
  | append_singleton names last ih =>
      have hearlier : (policy.positions (names ++ [last])) = policy.positions names ++
          if policy.lists last then [names.length] else [] := by
        have hcongr : ∀ position ∈ List.range names.length,
            (names ++ [last])[position]?.any policy.lists =
              names[position]?.any policy.lists := by
          intro position hposition
          rw [List.getElem?_append_left (List.mem_range.1 hposition)]
        rw [positions, List.length_append, List.length_singleton, List.range_succ,
          List.filter_append, List.filter_congr hcongr, List.filter_singleton]
        simp [positions]
      have hcongr : ∀ position ∈ policy.positions names,
          (names ++ [last])[position]? = names[position]? := by
        intro position hposition
        obtain ⟨name, hname, -⟩ := mem_positions.1 hposition
        exact List.getElem?_append_left (List.getElem?_eq_some_iff.1 hname).1
      rw [hearlier, List.filterMap_append, List.filterMap_congr hcongr, ih, List.filter_append,
        List.filter_singleton]
      cases policy.lists last <;> simp

/-- Both of two policies keep the positions that each of them keeps. -/
theorem mem_positions_both : position ∈ (policy.both other).positions names ↔
    position ∈ policy.positions names ∧ position ∈ other.positions names := by
  simp only [mem_positions, lists_both, Bool.and_eq_true]
  constructor
  · rintro ⟨name, hname, hpolicy, hother⟩
    exact ⟨⟨name, hname, hpolicy⟩, name, hname, hother⟩
  · rintro ⟨⟨name, hname, hpolicy⟩, name', hname', hother⟩
    obtain rfl : name = name' := Option.some.inj (hname.symm.trans hname')
    exact ⟨name, hname, hpolicy, hother⟩

/-- A policy below another keeps no position that the other does not. -/
theorem Below.positions_sublist (h : policy.Below other) :
    (policy.positions names).Sublist (other.positions names) := by
  refine List.monotone_filter_right _ fun position hposition => ?_
  obtain ⟨name, hname, hlists⟩ := (Option.any_eq_true _ _).1 hposition
  exact (Option.any_eq_true _ _).2 ⟨name, hname, h.lists hlists⟩

/-- What stands at a position that only the other policy keeps is stopped at a gate. -/
theorem exists_gate_of_mem_positions (hother : position ∈ other.positions names)
    (hnot : position ∉ policy.positions names) :
    ∃ name, names[position]? = some name ∧ ∃ gate : Gate, gate.appliesTo name = true ∧
      policy.isOpen gate = false ∧ other.isOpen gate = true := by
  obtain ⟨name, hname, hlists⟩ := mem_positions.1 hother
  exact ⟨name, hname, exists_gate_of_lists hlists fun h => hnot (mem_positions.2 ⟨name, hname, h⟩)⟩

end Policy

/-! ### Selecting -/

namespace Collected

variable {collected : Collected} {policy other : Policy} {names : List ClassifiedName}

theorem map_spelling_declarations (collected : Collected) :
    collected.declarations.map Declaration.spelling =
      collected.ruleNames ++ collected.aliasNames := by
  simp [declarations, rules, aliases, Function.comp_def]

theorem mem_aliasNames_of_kind {declaration : Declaration}
    (h : declaration ∈ collected.declarations) (hkind : declaration.kind = .aliased) :
    declaration.spelling ∈ collected.aliasNames := by
  rcases List.mem_append.1 h with h | h
  · obtain ⟨spelling, -, rfl⟩ := List.mem_map.1 h
    contradiction
  · obtain ⟨spelling, hspelling, rfl⟩ := List.mem_map.1 h
    exact hspelling

/-- Selecting has a fault when the declarations that are looked at cannot all be taken apart. -/
theorem select_eq_error_iff {fault : Fault} : collected.select policy = .error fault ↔
    (collected.candidates policy).mapM Declaration.classify = .error fault := by
  rw [select]
  cases (collected.candidates policy).mapM Declaration.classify with
  | error other => simp [Except.map]
  | ok names => simp [Except.map]

/-- Only the switch for aliases says what is looked at. -/
theorem candidates_congr (h : policy.showAlias = other.showAlias) :
    collected.candidates policy = collected.candidates other := by
  rw [candidates, candidates, h]

/-- When selecting has a fault: the spelling of a rule cannot be taken apart, or that of an alias
while aliases are listed. -/
theorem exists_select_eq_error_iff : (∃ fault, collected.select policy = .error fault) ↔
    (∃ spelling ∈ collected.ruleNames, ∃ fault,
        Decomposition.ofSpelling spelling = .error fault) ∨
      policy.showAlias = true ∧ ∃ spelling ∈ collected.aliasNames, ∃ fault,
        Decomposition.ofSpelling spelling = .error fault := by
  have hfaults (kind : Declaration.Kind) (spellings : List String) :
      (∃ declaration ∈ spellings.map (Declaration.mk · kind), ∃ fault,
        declaration.classify = .error fault) ↔
      ∃ spelling ∈ spellings, ∃ fault, Decomposition.ofSpelling spelling = .error fault := by
    simp [Declaration.exists_classify_eq_error_iff]
  simp only [select_eq_error_iff]
  rw [Declaration.exists_mapM_classify_eq_error_iff, candidates, rules, aliases]
  cases policy.showAlias with
  | false => simpa using hfaults .rule collected.ruleNames
  | true =>
      simp only [if_true, List.mem_append, or_and_right, exists_or, true_and]
      exact or_congr (hfaults .rule _) (hfaults .aliased _)

/-- What is looked at are the declarations whose kind is listed. -/
theorem candidates_eq_filter : collected.candidates policy =
    collected.declarations.filter fun declaration =>
      declaration.kind == .rule || policy.showAlias := by
  rw [candidates, declarations, List.filter_append]
  congr 1
  · rw [List.filter_eq_self.2]
    intro declaration hdeclaration
    obtain ⟨spelling, -, rfl⟩ := List.mem_map.1 hdeclaration
    rfl
  · cases policy.showAlias with
    | true => simp
    | false =>
        rw [if_neg (by simp), eq_comm, List.filter_eq_nil_iff]
        intro declaration hdeclaration
        obtain ⟨spelling, -, rfl⟩ := List.mem_map.1 hdeclaration
        simp

/-- Selecting filters the names of all declarations, though it looks at fewer of them. -/
theorem select_eq_filter (h : collected.declarations.mapM Declaration.classify = .ok names)
    (policy : Policy) : collected.select policy = .ok (names.filter policy.lists) := by
  obtain ⟨hdeclarations, hlower⟩ := Declaration.mapM_classify_eq_ok_iff.1 h
  have hcandidates : (collected.candidates policy).mapM Declaration.classify =
      .ok (names.filter fun name => name.kind == .rule || policy.showAlias) := by
    refine Declaration.mapM_classify_eq_ok_iff.2 ⟨?_, ?_⟩
    · rw [candidates_eq_filter, ← hdeclarations, List.filter_map]
      rfl
    · intro name hname
      exact hlower name (List.mem_filter.1 hname).1
  rw [select, hcandidates]
  exact congrArg Except.ok (List.filter_filter ..)

/-- If all spellings can be taken apart, so can all declarations. -/
theorem exists_names_of_spellings
    (h : ∀ spelling ∈ collected.ruleNames ++ collected.aliasNames, ∃ parts,
      Decomposition.ofSpelling spelling = .ok parts) :
    ∃ names, collected.declarations.mapM Declaration.classify = .ok names := by
  cases hnames : collected.declarations.mapM Declaration.classify with
  | ok names => exact ⟨names, rfl⟩
  | error fault =>
      obtain ⟨declaration, hdeclaration, hfault⟩ :=
        Declaration.exists_mapM_classify_eq_error_iff.1 ⟨fault, hnames⟩
      obtain ⟨fault, hfault⟩ := Declaration.exists_classify_eq_error_iff.1 hfault
      have hspelling : declaration.spelling ∈ collected.ruleNames ++ collected.aliasNames :=
        collected.map_spelling_declarations ▸ List.mem_map_of_mem hdeclaration
      obtain ⟨parts, hparts⟩ := h _ hspelling
      rw [hparts] at hfault
      contradiction

/-- **Selecting filters one list.**  It has a fault exactly when a spelling that is looked at cannot
be taken apart, where only the switch for aliases matters and hidden aliases do not.  If all
spellings can be taken apart, then the policy that lists everything gives all declarations in their
order, and any other policy leaves of them what it admits and lists.  Two policies together keep the
positions that each of them keeps; and a policy below another keeps fewer names, where each name
that is missing meets a gate that only the other opens. -/
theorem select_filters (collected : Collected) :
    (∀ policy : Policy, (∃ fault, collected.select policy = .error fault) ↔
      (∃ spelling ∈ collected.ruleNames, ∃ fault,
          Decomposition.ofSpelling spelling = .error fault) ∨
        policy.showAlias = true ∧ ∃ spelling ∈ collected.aliasNames, ∃ fault,
          Decomposition.ofSpelling spelling = .error fault) ∧
    (∀ policy other : Policy, policy.showAlias = other.showAlias → ∀ fault,
      collected.select policy = .error fault ↔ collected.select other = .error fault) ∧
    (∀ (policy : Policy) (hidden : List String), policy.showAlias = false →
      Collected.select ⟨collected.ruleNames, hidden⟩ policy = collected.select policy) ∧
    ((∀ spelling ∈ collected.ruleNames ++ collected.aliasNames, ∃ parts,
        Decomposition.ofSpelling spelling = .ok parts) →
      ∃ names, collected.select .everything = .ok names ∧
        names.map ClassifiedName.declaration = collected.declarations ∧
        (∀ policy : Policy, collected.select policy = .ok (names.filter fun name =>
          policy.admits name && (name.kind == .rule || policy.showAlias))) ∧
        (∀ policy : Policy,
          collected.select policy = .ok ((policy.positions names).filterMap (names[·]?))) ∧
        (∀ (policy other : Policy) (position : ℕ),
          position ∈ (policy.both other).positions names ↔
            position ∈ policy.positions names ∧ position ∈ other.positions names) ∧
        ∀ policy other : Policy, policy.Below other →
          (names.filter policy.lists).Sublist (names.filter other.lists) ∧
          (policy.positions names).Sublist (other.positions names) ∧
          ∀ position ∈ other.positions names, position ∉ policy.positions names →
            ∃ name, names[position]? = some name ∧ ∃ gate : Policy.Gate,
              gate.appliesTo name = true ∧ policy.isOpen gate = false ∧
                other.isOpen gate = true) := by
  refine ⟨fun policy => exists_select_eq_error_iff, ?_, ?_, ?_⟩
  · intro policy other halias fault
    rw [select_eq_error_iff, select_eq_error_iff, candidates_congr halias]
  · intro policy hidden halias
    rw [select, select, candidates, candidates, halias]
    rfl
  · intro hparts
    obtain ⟨names, hnames⟩ := exists_names_of_spellings hparts
    have hselect := select_eq_filter hnames
    refine ⟨names, ?_, (Declaration.mapM_classify_eq_ok_iff.1 hnames).1, hselect, ?_,
      fun policy other position => Policy.mem_positions_both, ?_⟩
    · rw [hselect, List.filter_eq_self.2 fun name _ => Policy.lists_everything]
    · intro policy
      rw [hselect, Policy.filterMap_positions]
    · intro policy other hbelow
      refine ⟨List.monotone_filter_right _ fun name => hbelow.lists, hbelow.positions_sublist, ?_⟩
      intro position hother hnot
      exact Policy.exists_gate_of_mem_positions hother hnot

/-- Names may be stopped at two gates, and may stand at two positions. -/
theorem select_filters_repeated :
    (∀ spelling ∈ ["!_a", "c", "?b"] ++ ["c", "!_a"], ∃ parts,
      Decomposition.ofSpelling spelling = .ok parts) ∧
    ∃ names, Collected.select ⟨["!_a", "c", "?b"], ["c", "!_a"]⟩ .everything = .ok names ∧
      names.map ClassifiedName.spelling = ["!_a", "c", "?b", "c", "!_a"] ∧
      Collected.select ⟨["!_a", "c", "?b"], ["c", "!_a"]⟩ {} =
        .ok ((Policy.positions {} names).filterMap (names[·]?)) ∧
      Policy.positions {} names = [1, 3] ∧
      ∃ name, names[4]? = some name ∧ ∃ gate : Policy.Gate, gate.appliesTo name = true ∧
        Policy.isOpen {} gate = false ∧ Policy.everything.isOpen gate = true := by
  have hparts : ∀ spelling ∈ ["!_a", "c", "?b"] ++ ["c", "!_a"], ∃ parts,
      Decomposition.ofSpelling spelling = .ok parts := by
    simp only [List.cons_append, List.nil_append, List.forall_mem_cons]
    exact ⟨⟨_, rfl⟩, ⟨_, rfl⟩, ⟨_, rfl⟩, ⟨_, rfl⟩, ⟨_, rfl⟩, by simp⟩
  obtain ⟨names, hall, hdeclarations, -, hselect, -, hbelow⟩ :=
    (select_filters ⟨["!_a", "c", "?b"], ["c", "!_a"]⟩).2.2.2 hparts
  have hnames : Collected.select ⟨["!_a", "c", "?b"], ["c", "!_a"]⟩ .everything =
      .ok [⟨"a", ⟨true, .inner⟩, .rule⟩, ⟨"c", .bare, .rule⟩, ⟨"b", ⟨false, .conditional⟩, .rule⟩,
        ⟨"c", .bare, .aliased⟩, ⟨"a", ⟨true, .inner⟩, .aliased⟩] := rfl
  obtain rfl := Except.ok.inj (hnames.symm.trans hall)
  refine ⟨hparts, _, hall, by decide, hselect {}, by decide, ?_⟩
  exact (hbelow {} .everything fun gate _ => by cases gate <;> rfl).2.2 4 (by decide) (by decide)

end Collected

end GrammarCatalog
