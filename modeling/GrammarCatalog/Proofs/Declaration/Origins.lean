/-
**Where the collected names come from.**

Which names are collected from a text, and in which order, can be read off its tokens.  A name is
counted as a rule if a statement defines it before another statement gives it to an alternative,
and as an alias if it is given first; a statement that does both counts as a definition.

Main definitions:

* `GrammarCatalog.Token.statements` — the statements of a text, as the kinds of their tokens;
* `GrammarCatalog.Collected.StemsFrom` — what is collected from some statements.

Main results:

* `GrammarCatalog.Declaration.mem_firstSeen_flatten` — the first event of a name is in the first
  statement that has one;
* `GrammarCatalog.Declaration.pairwise_firstSeen_flatten` — names are listed in the order of the
  first statements that say them;
* `GrammarCatalog.Collected.ofSource_stemsFrom` — **what is collected is read off the tokens**.
-/

import GrammarCatalog.Declaration.Selection
import GrammarCatalog.Proofs.Declaration.Statements

set_option relaxedAutoImplicit false
set_option autoImplicit false

namespace GrammarCatalog

/-- The statements of a text: the kinds of its tokens between line breaks, comments left out. -/
def Token.statements (source : String) : List (List TokenKind) :=
  ((significant source).map kind).splitOn .newline

open TokenKind (Defines Aliases Reads)

/-! ### First events, statement by statement -/

namespace Declaration

variable {kind : Kind} {name : String}

/-- What comes later adds the names that have had no event. -/
theorem firstSeen_append (earlier later : List Declaration) :
    firstSeen kind (earlier ++ later) = firstSeen kind earlier ++
      (firstSeen kind later).filter fun name => name ∉ earlier.map spelling := by
  induction later using List.reverseRecOn with
  | nil => simp [firstSeen]
  | append_singleton later event ih =>
      rw [← List.append_assoc]
      by_cases hlater : event.spelling ∈ later.map spelling
      · rw [firstSeen_append_of_mem hlater, ← ih]
        exact firstSeen_append_of_mem (by simp [List.mem_map.1 hlater])
      by_cases hearlier : event.spelling ∈ earlier.map spelling
      · rw [firstSeen_append_of_mem (by simp [List.mem_map.1 hearlier]), ih,
          firstSeen_append_of_notMem hlater, List.filter_append]
        split <;> simp [List.mem_map.1 hearlier]
      · have hnot : event.spelling ∉ (earlier ++ later).map spelling := by
          rw [List.map_append, List.mem_append]
          exact fun h => h.elim hearlier hlater
        rw [firstSeen_append_of_notMem hnot, ih, firstSeen_append_of_notMem hlater,
          List.filter_append, List.append_assoc]
        have hkeep : [event.spelling].filter (fun name => name ∉ earlier.map spelling) =
            [event.spelling] := by simpa using hearlier
        split
        · rw [hkeep]
        · rfl

/-- **The first event of a name is in the first statement that has one.** -/
theorem mem_firstSeen_flatten {states mentions : List TokenKind → Prop}
    {statements : List (List TokenKind)} {events : List (List Declaration)}
    (h : List.Forall₂ (fun statement events => (name ∈ firstSeen kind events ↔ states statement) ∧
      (name ∈ events.map spelling ↔ mentions statement)) statements events) :
    name ∈ firstSeen kind events.flatten ↔
      ∃ before statement after, statements = before ++ statement :: after ∧ states statement ∧
        ∀ other ∈ before, ¬mentions other := by
  induction h with
  | nil => simp [firstSeen]
  | @cons statement first statements others hfirst _ ih =>
      rw [List.flatten_cons, firstSeen_append, List.mem_append, List.mem_filter, ih, hfirst.1,
        decide_eq_true_iff, hfirst.2]
      constructor
      · rintro (hstates | ⟨⟨before, other, after, rfl, hstates, hbefore⟩, hnot⟩)
        · exact ⟨[], statement, statements, rfl, hstates, by simp⟩
        · exact ⟨statement :: before, other, after, rfl, hstates, by simpa using ⟨hnot, hbefore⟩⟩
      · rintro ⟨before, other, after, heq, hstates, hbefore⟩
        cases before with
        | nil =>
            obtain ⟨rfl, rfl⟩ := List.cons.inj heq
            exact Or.inl hstates
        | cons _ before =>
            obtain ⟨rfl, rfl⟩ := List.cons.inj heq
            exact Or.inr ⟨⟨before, other, after, rfl, hstates,
              fun kinds hkinds => hbefore kinds (List.mem_cons_of_mem _ hkinds)⟩,
              hbefore _ List.mem_cons_self⟩

/-- **Names are listed in the order of the first statements that make them.** -/
theorem pairwise_firstSeen_flatten {states : String → List TokenKind → Prop}
    [∀ name, DecidablePred (states name)]
    {statements : List (List TokenKind)} {events : List (List Declaration)}
    (h : List.Forall₂ (fun statement events =>
      ∀ name, ⟨name, kind⟩ ∈ events ↔ states name statement) statements events) :
    (firstSeen kind events.flatten).Pairwise fun name other =>
      statements.findIdx (states name ·) ≤ statements.findIdx (states other ·) := by
  induction h with
  | nil => simp [firstSeen]
  | @cons statement first statements others hfirst _ ih =>
      have hsaid {name : String} (hname : name ∈ firstSeen kind first) : states name statement := by
        obtain ⟨event, hevent, rfl⟩ := mem_firstSeen.1 hname
        obtain rfl : event.spelling = name := by simpa using List.find?_some hevent
        exact (hfirst _).1 (List.mem_of_find?_eq_some hevent)
      have hunsaid {name : String} (hname : name ∉ first.map spelling) : ¬states name statement :=
        fun hstates => hname (List.mem_map.2 ⟨_, (hfirst name).2 hstates, rfl⟩)
      rw [List.flatten_cons, firstSeen_append, List.pairwise_append]
      refine ⟨?_, ?_, ?_⟩
      · exact List.pairwise_of_forall_mem_list fun name hname _ _ => by
          simp [List.findIdx_cons, hsaid hname]
      · refine (ih.filter _).imp_of_mem fun hname hother hle => ?_
        have hname := hunsaid (by simpa using (List.mem_filter.1 hname).2)
        have hother := hunsaid (by simpa using (List.mem_filter.1 hother).2)
        simpa [List.findIdx_cons, hname, hother] using hle
      · intro name hname _ _
        simp [List.findIdx_cons, hsaid hname]

end Declaration

/-! ### One statement -/

namespace TokenKind

open Declaration (firstSeen mem_firstSeen)

variable {statement : List TokenKind} {events : List Declaration}

/-- A statement defines one name at most. -/
theorem Defines.unique {name other : String} (h : Defines name statement)
    (h' : Defines other statement) : name = other := by
  -- the first token tells whether the name stands behind a directive
  rcases h with ⟨rest, rfl⟩ | ⟨which, -, rest, rfl⟩
  · rcases h' with ⟨rest', heq⟩ | ⟨which', -, rest', heq⟩
    · simp_all
    · simp at heq
  · rcases h' with ⟨rest', heq⟩ | ⟨which', -, rest', heq⟩
    · simp at heq
    · simp_all

/-- An event of a statement is a definition or an alias. -/
theorem Reads.mem_spellings_iff (h : Reads statement events) (name : String) :
    name ∈ events.map Declaration.spelling ↔ Defines name statement ∨ Aliases name statement := by
  rw [← h.defines, ← h.aliases, List.mem_map]
  constructor
  · rintro ⟨⟨spelling, kind⟩, hevent, rfl⟩
    cases kind with
    | rule => exact Or.inl hevent
    | aliased => exact Or.inr hevent
  · rintro (hevent | hevent)
    · exact ⟨_, hevent, rfl⟩
    · exact ⟨_, hevent, rfl⟩

/-- The first event of the name that a statement defines is the rule. -/
theorem Reads.mem_rules_iff (h : Reads statement events) (name : String) :
    name ∈ firstSeen .rule events ↔ Defines name statement := by
  rw [mem_firstSeen, ← h.defines]
  constructor
  · rintro ⟨⟨spelling, kind⟩, hfirst, rfl⟩
    obtain rfl : spelling = name := by simpa using List.find?_some hfirst
    exact List.mem_of_find?_eq_some hfirst
  · intro hrule
    obtain ⟨others, rfl⟩ := List.head?_eq_some_iff.1 (h.head name hrule)
    exact ⟨⟨name, .rule⟩, by simp, rfl⟩

/-- The first event of another name is the alias, if it has an event. -/
theorem Reads.mem_aliases_iff (h : Reads statement events) (name : String) :
    name ∈ firstSeen .aliased events ↔ Aliases name statement ∧ ¬Defines name statement := by
  have hall := h.mem_spellings_iff name
  rw [← Declaration.mem_firstSeen_or, h.mem_rules_iff] at hall
  have hnot : name ∈ firstSeen .aliased events → ¬Defines name statement := by
    rw [← h.mem_rules_iff]
    intro haliased hrule
    exact (List.nodup_append.1 (Declaration.nodup_firstSeen events)).2.2 _ hrule _ haliased rfl
  tauto

end TokenKind

/-! ### All statements -/

/-- **What is collected from some statements**: the names that a statement defines before any other
gives them to an alternative, the names that are given before, and both in the order of the
statements. -/
structure Collected.StemsFrom (collected : Collected) (statements : List (List TokenKind)) :
    Prop where
  /-- A name is a rule if a statement defines it, and none before has it for an alias. -/
  mem_ruleNames (name : String) : name ∈ collected.ruleNames ↔
    ∃ before statement after, statements = before ++ statement :: after ∧
      Defines name statement ∧ ∀ other ∈ before, ¬(Defines name other ∨ Aliases name other)
  /-- A name is an alias if a statement has it for one, and neither that statement defines it nor
  one before. -/
  mem_aliasNames (name : String) : name ∈ collected.aliasNames ↔
    ∃ before statement after, statements = before ++ statement :: after ∧
      (Aliases name statement ∧ ¬Defines name statement) ∧
        ∀ other ∈ before, ¬(Defines name other ∨ Aliases name other)
  /-- Rules are listed in the order of the statements that first define them. -/
  pairwise_ruleNames : collected.ruleNames.Pairwise fun name other =>
    statements.findIdx (Defines name ·) < statements.findIdx (Defines other ·)
  /-- Aliases are listed in the order of the statements that first have them. -/
  pairwise_aliasNames : collected.aliasNames.Pairwise fun name other =>
    statements.findIdx (Aliases name ·) ≤ statements.findIdx (Aliases other ·)

/-- What gathers the events of statements is what is collected from them. -/
theorem Collector.Gathers.stemsFrom {collector : Collector} {statements : List (List TokenKind)}
    {events : List (List Declaration)} (h : collector.Gathers events.flatten)
    (hreads : List.Forall₂ Reads statements events) :
    collector.collected.StemsFrom statements where
  mem_ruleNames name := by
    rw [h.ruleNames]
    exact Declaration.mem_firstSeen_flatten
      (hreads.imp fun _ _ hreads => ⟨hreads.mem_rules_iff name, hreads.mem_spellings_iff name⟩)
  mem_aliasNames name := by
    rw [h.aliasNames]
    exact Declaration.mem_firstSeen_flatten
      (hreads.imp fun _ _ hreads => ⟨hreads.mem_aliases_iff name, hreads.mem_spellings_iff name⟩)
  pairwise_ruleNames := by
    rw [h.ruleNames]
    have hle := Declaration.pairwise_firstSeen_flatten (hreads.imp fun _ _ hreads => hreads.defines)
    have hne := (List.nodup_append.1 (Declaration.nodup_firstSeen events.flatten)).1
    refine (hle.and hne).imp_of_mem ?_
    rintro name other hname - ⟨hle, hne⟩
    refine lt_of_le_of_ne hle fun heq => hne ?_
    -- the statement that first defines one name would define the other as well
    obtain ⟨before, statement, after, hsplit, hdefines, -⟩ :=
      (Declaration.mem_firstSeen_flatten (hreads.imp fun _ _ hreads =>
        ⟨hreads.mem_rules_iff name, hreads.mem_spellings_iff name⟩)).1 hname
    have hlt : statements.findIdx (Defines name ·) < statements.length :=
      List.findIdx_lt_length_of_exists ⟨statement, by simp [hsplit], by simpa using hdefines⟩
    have hfirst := ((List.findIdx_eq hlt).1 rfl).1
    have hother := ((List.findIdx_eq hlt).1 heq.symm).1
    exact (of_decide_eq_true hfirst).unique (of_decide_eq_true hother)
  pairwise_aliasNames := by
    rw [h.aliasNames]
    exact Declaration.pairwise_firstSeen_flatten (hreads.imp fun _ _ hreads => hreads.aliases)

/-! ### Texts -/

namespace Tree

variable {source : String} {tree : Tree}

/-- No node of the tree of a text is misshapen. -/
theorem isShapely_of_mem_preorder (h : ofSource source = .ok tree) {node : Tree}
    (hnode : node ∈ tree.preorder) : node.isShapely = true := by
  rw [← topdown_eq_preorder] at hnode
  obtain ⟨declaration, hdeclaration, -⟩ := exists_declaration_of_mem_topdown h hnode
  rw [declaration?_eq] at hdeclaration
  by_contra hshape
  rw [if_neg hshape] at hdeclaration
  contradiction

/-- The events of all nodes are collected from a tree without misshapen nodes. -/
theorem collect_of_isShapely (h : ∀ node ∈ tree.preorder, node.isShapely = true) :
    ∃ collector : Collector, tree.collect = .ok collector.collected ∧
      collector.Gathers (Child.made [.tree tree]) := by
  have hnone : fault? tree.preorder = none := by simpa [fault?] using h
  have hevents : events tree.preorder = Child.made [.tree tree] := by
    rw [events, List.takeWhile_eq_self_iff.2 h]
    simp [Child.made, Child.preorderAll]
  cases hvisit : Collector.visitAll {} tree with
  | mk collector fault =>
      have hperform := Collector.gathers_nil.perform (.visitAll tree)
      simp only [Collector.perform, hvisit, Collector.Step.events, Collector.Step.nodes, hnone,
        hevents, List.nil_append] at hperform
      obtain ⟨hgathers, rfl⟩ := hperform
      exact ⟨collector, by rw [collect, hvisit], hgathers⟩

/-- The events of all nodes are collected from the tree of a text. -/
theorem collect_ofSource (h : ofSource source = .ok tree) :
    ∃ collector : Collector, tree.collect = .ok collector.collected ∧
      collector.Gathers (Child.made [.tree tree]) :=
  collect_of_isShapely fun _ => isShapely_of_mem_preorder h

end Tree

namespace Collected

/-- **What is collected is read off the tokens.** -/
theorem ofSource_stemsFrom {source : String} {tree : Tree} (h : Tree.ofSource source = .ok tree) :
    ∃ collected, ofSource source = .ok collected ∧
      collected.StemsFrom (Token.statements source) := by
  obtain ⟨trees, r, htree, hderives, hr⟩ := Tree.ofSource_eq_ok_iff.1 h
  obtain ⟨events, hreads, hmade⟩ :=
    hderives.readsAll (TokenStream.terminated_ofSource source) hr
  rw [TokenStream.kinds, TokenStream.toList_ofSource] at hreads
  obtain ⟨collector, hcollect, hgathers⟩ := Tree.collect_ofSource h
  rw [htree, Child.made_node rfl, hmade] at hgathers
  refine ⟨collector.collected, ?_, hgathers.stemsFrom hreads⟩
  rw [ofSource, h]
  change tree.collect.mapError Failure.broken = .ok collector.collected
  rw [hcollect]
  rfl

set_option maxRecDepth 4000 in
/-- A name that is given to an alternative before a statement defines it is an alias. -/
theorem stemsFrom_givenBefore :
    ofSource "a: b -> c\nc: d" = .ok ⟨["a"], ["c"]⟩ ∧
      StemsFrom ⟨["a"], ["c"]⟩
        [[.rule "a", .punctuation .colon, .rule "b", .punctuation .arrow, .rule "c"],
          [.rule "c", .punctuation .colon, .rule "d", .endOfInput]] := by
  have hok : (Tree.ofSource "a: b -> c\nc: d").isOk = true := by cbv
  have hcollected : ofSource "a: b -> c\nc: d" = .ok ⟨["a"], ["c"]⟩ := by cbv
  have hstatements : Token.statements "a: b -> c\nc: d" =
      [[.rule "a", .punctuation .colon, .rule "b", .punctuation .arrow, .rule "c"],
        [.rule "c", .punctuation .colon, .rule "d", .endOfInput]] := by cbv
  cases htree : Tree.ofSource "a: b -> c\nc: d" with
  | error failure =>
      rw [htree] at hok
      contradiction
  | ok tree =>
      obtain ⟨collected, hcollected', hstems⟩ := ofSource_stemsFrom htree
      obtain rfl := Except.ok.inj (hcollected.symm.trans hcollected')
      exact ⟨hcollected, hstatements ▸ hstems⟩

end Collected

end GrammarCatalog
