/-
**Aliases and the definitions of terminals.**

An alternative gets its alias from the rule whose body it belongs to; the alternatives of terminals
and of ignored text are to have none.  The parser refuses an alias there, but not within a group, so
a statement of terminals may give aliases after all.  When no such statement does, every alias
stands below a rule, and what is collected does not depend on the statements of terminals.

Main definitions:

* `GrammarCatalog.Tree.outsideRules` — the nodes of a tree that are neither rules nor below one;
* `GrammarCatalog.TokenKind.isOfTerminals` — a statement defines a terminal or ignores text;
* `GrammarCatalog.Tree.withoutTerminals` — the tree of a text without such statements.

Main results:

* `GrammarCatalog.Child.stray_of_isOfTerminals` — in a statement of terminals no alias stands below
  a rule;
* `GrammarCatalog.Tree.aliases_below_rules_iff` — **all aliases stand below rules** exactly if no
  statement of terminals gives any, and then statements of terminals do not matter.
-/

import GrammarCatalog.Proofs.Declaration.Origins
import GrammarCatalog.Proofs.Tree.Layout

set_option relaxedAutoImplicit false
set_option autoImplicit false

namespace GrammarCatalog

/-! ### Statements of terminals -/

namespace TokenKind

/-- A statement defines a terminal, in place of an imported one or not, or it ignores text. -/
def isOfTerminals : List TokenKind → Bool
  | .terminal _ :: _ => true
  | .directive name :: kinds =>
      name == Directive.ignore.name ||
        ((name == Directive.override.name || name == Directive.extend.name) &&
          kinds.head?.any isTerminal)
  | _ => false

/-- What stands behind the end of a statement does not matter. -/
theorem isOfTerminals_append {kinds rest : List TokenKind}
    (hrest : ∀ kind ∈ rest.head?, kind.endsStatement = true) :
    isOfTerminals (kinds ++ rest) = isOfTerminals kinds := by
  have hnot : rest.head?.any isTerminal = false := by
    cases rest with
    | nil => rfl
    | cons kind rest =>
        have hkind := hrest kind rfl
        cases kind <;> first | rfl | contradiction
  rcases kinds with _ | ⟨kind, _ | ⟨next, kinds⟩⟩
  · cases rest with
    | nil => rfl
    | cons kind rest =>
        have hkind := hrest kind rfl
        cases kind <;> first | rfl | contradiction
  · cases kind <;> simp [isOfTerminals, hnot]
  · cases kind <;> simp [isOfTerminals]

/-- A statement of terminals defines no rule. -/
theorem not_defines_of_isOfTerminals {name : String} {statement : List TokenKind}
    (h : isOfTerminals statement = true) : ¬Defines name statement := by
  rintro (⟨rest, rfl⟩ | ⟨which, hwhich, rest, rfl⟩)
  · contradiction
  · simp only [List.mem_cons, List.not_mem_nil, or_false] at hwhich
    rcases hwhich with rfl | rfl <;> simp [isOfTerminals, isTerminal, Directive.name] at h

end TokenKind

/-! ### Nodes outside rules -/

mutual

/-- The nodes of a tree that are neither rules nor below one, parents before children. -/
def Tree.outsideRules : Tree → List Tree
  | .node kind children span =>
      if kind = .rule then [] else .node kind children span :: Child.outsideRulesAll children

/-- The nodes in a list of slots that are neither rules nor below one. -/
def Child.outsideRulesAll : List Child → List Tree
  | [] => []
  | .tree node :: slots => node.outsideRules ++ Child.outsideRulesAll slots
  | .token _ :: slots => Child.outsideRulesAll slots
  | .absent :: slots => Child.outsideRulesAll slots

end

/-- The kinds of nodes that may have rules in their slots. -/
def NodeKind.holdsRules : NodeKind → Bool
  | start | rule | override | extend => true
  | _ => false

/-- A node of a statement that defines a terminal or ignores text. -/
def Tree.isOfTerminals (node : Tree) : Bool :=
  match node.kind with
  | .term | .ignore => true
  | .override | .extend => node.subtrees.any fun definition => definition.kind == .term
  | _ => false

namespace Child

/-- A slot with a node of a statement that defines a terminal or ignores text. -/
def isOfTerminals : Child → Bool
  | tree node => node.isOfTerminals
  | _ => false

/-- The aliases in some slots that do not stand below a rule. -/
def stray (slots : List Child) : List Declaration :=
  (outsideRulesAll slots).filterMap Tree.event?

variable {slot : Child} {slots : List Child}

theorem outsideRulesAll_sublist (slots : List Child) :
    (outsideRulesAll slots).Sublist (preorderAll slots) := by
  induction slots using slots_induction with
  | nil => exact List.Sublist.refl _
  | tree kind children span slots ih ih' =>
      rw [outsideRulesAll, preorderAll, Tree.outsideRules, Tree.preorder]
      refine List.Sublist.append ?_ ih'
      split
      · exact List.nil_sublist _
      · exact ih.cons_cons _
  | token leaf slots ih => exact ih
  | absent slots ih => exact ih

/-- Where there are no rules, all nodes are outside of rules. -/
theorem outsideRulesAll_eq (h : Everywhere (fun node => node.kind ≠ .rule) slots) :
    outsideRulesAll slots = preorderAll slots := by
  induction slots using slots_induction with
  | nil => rfl
  | tree kind children span slots ih ih' =>
      obtain ⟨hnode, hslots⟩ := everywhere_cons.1 h
      obtain ⟨hkind, hchildren⟩ := everywhere_node.1 hnode
      rw [Tree.kind_node] at hkind
      rw [outsideRulesAll, preorderAll, Tree.outsideRules, Tree.preorder, if_neg hkind,
        ih hchildren, ih' hslots]
  | token leaf slots ih => exact ih h
  | absent slots ih => exact ih h

end Child

/-- Only nodes that may hold rules hold nodes that may. -/
theorem NodeKind.holdsRules_of_mem_held {kind other : NodeKind} (h : other ∈ kind.held)
    (hkind : kind.holdsRules = false) : other.holdsRules = false := by
  revert other
  cases kind <;> simp [held, holdsRules] at hkind ⊢

namespace Child

variable {slot : Child} {slots : List Child}

/-- Below a node that may not hold rules, there is no rule. -/
theorem outsideRulesAll_of_holdsRules {node : Tree} (h : Everywhere Tree.LaidOut [.tree node])
    (hnode : node.kind.holdsRules = false) :
    outsideRulesAll [.tree node] = preorderAll [.tree node] := by
  have hfree : Everywhere (fun node => node.kind.holdsRules = false) [.tree node] := by
    refine h.inherit (fun node hlaid hkind child hchild => ?_) ?_
    · exact NodeKind.holdsRules_of_mem_held (hlaid.kind_mem_held hchild) hkind
    · intro other hother
      obtain rfl : other = node := by simpa using hother
      exact hnode
  refine outsideRulesAll_eq fun other hother hrule => ?_
  have hfalse : other.kind.holdsRules = false := hfree other hother
  rw [hrule] at hfalse
  contradiction

theorem outsideRulesAll_node {kind : NodeKind} (hkind : kind ≠ .rule) (slots : List Child)
    (span : Span) : outsideRulesAll [.tree (.node kind slots span)] =
      .node kind slots span :: outsideRulesAll slots := by
  rw [outsideRulesAll, Tree.outsideRules, if_neg hkind, outsideRulesAll, List.append_nil]

/-- A directive in front of a terminal does not put it below a rule. -/
theorem outsideRulesAll_redefinition {kind : NodeKind} {definition : Child} {span : Span}
    (h : Everywhere Tree.LaidOut [definition]) (hkind : kind ≠ .rule)
    (hterm : (Tree.node kind [definition] span).subtrees.any (·.kind == .term) = true) :
    outsideRulesAll [.tree (.node kind [definition] span)] =
      preorderAll [.tree (.node kind [definition] span)] := by
  cases definition with
  | tree body =>
      have hbody : body.kind = .term := by simpa [Tree.subtrees] using hterm
      rw [outsideRulesAll_node hkind, outsideRulesAll_of_holdsRules h (by rw [hbody]; rfl)]
      simp [preorderAll, Tree.preorder]
  | token leaf => contradiction
  | absent => contradiction

/-- In a statement of terminals no alias stands below a rule. -/
theorem stray_of_isOfTerminals (h : Everywhere Tree.LaidOut [slot])
    (hslot : slot.isOfTerminals = true) : stray [slot] = made [slot] := by
  refine congrArg (List.filterMap Tree.event?) ?_
  cases slot with
  | tree node =>
      obtain ⟨kind, children, span⟩ := node
      obtain ⟨hlaid, hchildren⟩ := everywhere_node.1 h
      cases kind with
      | term | ignore => exact outsideRulesAll_of_holdsRules h rfl
      | override | extend =>
          cases hlaid
          exact outsideRulesAll_redefinition hchildren (by decide) hslot
      | _ => contradiction
  | token leaf => contradiction
  | absent => contradiction

theorem stray_of_made (h : made slots = []) : stray slots = [] :=
  List.sublist_nil.1 (h ▸ (outsideRulesAll_sublist slots).filterMap Tree.event?)

theorem stray_rule (slots : List Child) (span : Span) :
    stray [.tree (.node .rule slots span)] = [] := by
  simp [stray, outsideRulesAll, Tree.outsideRules]

theorem stray_node {kind : NodeKind} (hkind : kind.declares = false) (slots : List Child)
    (span : Span) : stray [.tree (.node kind slots span)] = stray slots := by
  have hrule : kind ≠ .rule := by
    rintro rfl
    contradiction
  rw [stray, outsideRulesAll_node hrule, List.filterMap_cons_none]
  · rfl
  · cases kind with
    | rule => contradiction
    | alternative => contradiction
    | _ => rfl

theorem stray_append (slots others : List Child) :
    stray (slots ++ others) = stray slots ++ stray others := by
  induction slots with
  | nil => rfl
  | cons slot slots ih =>
      cases slot <;> simp_all [stray, outsideRulesAll]

end Child

/-! ### Statements -/

namespace Phrase

open Child (made made_cons made_node stray stray_node stray_rule stray_of_made)
open TokenKind (Aliases)

variable {n : ℕ} {s r : TokenStream} {slot : Child}

theorem kind_of_isDirective {kind : TokenKind} {which : Directive}
    (h : kind.isDirective which = true) : kind = .directive which.name := by
  simpa [TokenKind.isDirective] using h

/-- A definition is one of a terminal if it begins with a terminal name. -/
theorem Derives.isNode_term (h : Derives .definition n s r [slot]) :
    slot.isNode .term = s.current.kind.isTerminal := by
  cases h with
  | rule hname _ _ _ _ =>
      obtain ⟨name, hkind⟩ := TokenKind.exists_rule_of_isRule hname
      rw [TokenStream.current_cons, hkind]
      rfl
  | term hname _ _ _ =>
      rw [TokenStream.current_cons, hname]
      rfl

/-- The tokens of a statement tell whether it is one of terminals. -/
theorem Derives.isOfTerminals_kinds (h : Derives .statement n s r [slot]) :
    TokenKind.isOfTerminals s.kinds = slot.isOfTerminals := by
  cases h with
  | defines h =>
      cases h with
      | rule hname _ _ _ _ =>
          obtain ⟨name, hkind⟩ := TokenKind.exists_rule_of_isRule hname
          rw [TokenStream.kinds_cons, hkind]
          rfl
      | @term _ name _ _ _ _ _ _ hname _ _ _ =>
          rw [TokenStream.kinds_cons]
          cases hkind : name.kind with
          | terminal text => rfl
          | _ => simp [hkind, TokenKind.isTerminal] at hname
  | ignore hdirective _ | importPath hdirective _ | importAs hdirective _ _ _
  | importNames hdirective _ _ _ _ | declare hdirective _ =>
      rw [TokenStream.kinds_cons, kind_of_isDirective hdirective]
      rfl
  | override hdirective h | extend hdirective h =>
      rw [TokenStream.kinds_cons, kind_of_isDirective hdirective, TokenStream.kinds_eq]
      have hterm := h.isNode_term
      simpa [TokenKind.isOfTerminals, Child.isOfTerminals, Tree.isOfTerminals, Tree.subtrees,
        Directive.name, Child.isNode] using hterm.symm

/-- All aliases of a statement stand below a rule, unless it is one of terminals. -/
theorem Derives.stray_eq_nil (h : Derives .statement n s r [slot])
    (hslot : slot.isOfTerminals = false) : stray [slot] = [] := by
  cases h with
  | defines h =>
    cases h with
    | rule hname _ _ _ _ => exact stray_rule _ _
    | term hname _ _ _ => contradiction
  | ignore _ _ => contradiction
  | importPath _ hpath | importAs _ hpath _ _ =>
      refine stray_of_made ?_
      rw [made_node rfl, made_cons, made_of_path hpath]
      rfl
  | importNames _ hpath _ hnames _ =>
      obtain ⟨names, rfl⟩ := hnames.exists_tokens
      refine stray_of_made ?_
      rw [made_node rfl, made_cons, made_of_path hpath, Child.made_tokens]
      rfl
  | declare _ _ =>
      refine stray_of_made ?_
      rw [made_node rfl, Child.made_tokens]
  | override _ h | extend _ h =>
      rw [stray_node rfl]
      cases h with
      | rule _ _ _ _ _ => exact stray_rule _ _
      | term _ _ _ _ => contradiction

/-- The slots of a statement have an alias that stands below no rule exactly if the statement is one
of terminals and gives an alias. -/
def StraysOnlyIn (statement : List TokenKind) (slots : List Child) : Prop :=
  stray slots = [] ↔ (TokenKind.isOfTerminals statement = true → ∀ name, ¬Aliases name statement)

theorem StraysOnlyIn.append_end {statement : List TokenKind} {slots : List Child}
    (h : StraysOnlyIn statement slots) : StraysOnlyIn (statement ++ [.endOfInput]) slots := by
  unfold StraysOnlyIn at h ⊢
  rw [h, TokenKind.isOfTerminals_append (by simp [TokenKind.endsStatement])]
  simp only [TokenKind.aliases_append_end]

/-- **A statement has an alias that stands below no rule** exactly if it is one of terminals and
gives an alias. -/
theorem Derives.stray_eq_nil_iff (h : Derives .statement n s r [slot])
    (hr : r.current.kind.endsStatement = true) :
    ∃ taken, s.kinds = taken ++ r.kinds ∧ .newline ∉ taken ∧
      StraysOnlyIn taken [slot] := by
  obtain ⟨taken, htaken, hnot, hreads⟩ := h.reads hr
  refine ⟨taken, htaken, hnot, ?_⟩
  unfold StraysOnlyIn
  have hterminals : TokenKind.isOfTerminals taken = slot.isOfTerminals := by
    rw [← TokenKind.isOfTerminals_append (endsStatement_of_head? hr), ← htaken,
      h.isOfTerminals_kinds]
  by_cases hslot : slot.isOfTerminals = true
  · rw [hslot] at hterminals
    rw [Child.stray_of_isOfTerminals h.laidOut hslot]
    constructor
    · intro hmade _ name haliases
      simpa [hmade] using (hreads.aliases name).2 haliases
    · intro hnone
      refine List.eq_nil_iff_forall_not_mem.2 ?_
      rintro ⟨name, kind⟩ hevent
      cases kind with
      | rule =>
          exact TokenKind.not_defines_of_isOfTerminals hterminals ((hreads.defines name).1 hevent)
      | aliased => exact hnone hterminals name ((hreads.aliases name).1 hevent)
  · have hslot : slot.isOfTerminals = false := by simpa using hslot
    simp [hterminals, hslot, h.stray_eq_nil hslot]

/-- All aliases of a text stand below rules exactly if no statement of terminals gives any. -/
theorem Derives.stray_lines_eq_nil_iff {slots : List Child} (h : Derives .lines n s r slots)
    (hs : s.Terminated) (hr : r.current.kind = .endOfInput) :
    stray slots = [] ↔ ∀ statement ∈ s.kinds.splitOn .newline,
      TokenKind.isOfTerminals statement = true → ∀ name, ¬Aliases name statement := by
  obtain ⟨pieces, hpieces, rfl⟩ := Derives.forall₂_lines (motive := StraysOnlyIn)
    (by simp [StraysOnlyIn, TokenKind.isOfTerminals, stray, Child.outsideRulesAll])
    (fun h hr => h.stray_eq_nil_iff hr) (fun h => h.append_end) h hs hr
  clear h
  generalize s.kinds.splitOn .newline = statements at hpieces ⊢
  induction hpieces with
  | nil => simp [stray, Child.outsideRulesAll]
  | cons hfirst _ ih =>
      unfold StraysOnlyIn at hfirst
      rw [List.flatten_cons, Child.stray_append, List.append_eq_nil_iff, hfirst, ih,
        List.forall_mem_cons]

end Phrase

/-! ### Trees -/

namespace Child

variable {slot : Child} {slots : List Child} {node : Tree}

theorem kind_ne_rule_of_mem_outsideRulesAll (h : node ∈ outsideRulesAll slots) :
    node.kind ≠ .rule := by
  induction slots using slots_induction with
  | nil => contradiction
  | tree kind children span slots ih ih' =>
      rw [outsideRulesAll, Tree.outsideRules, List.mem_append] at h
      rcases h with h | h
      · split at h
        · contradiction
        · rcases List.mem_cons.1 h with rfl | h
          · assumption
          · exact ih h
      · exact ih' h
  | token leaf slots ih => exact ih h
  | absent slots ih => exact ih h

theorem preorderAll_filter_subset (keeps : Child → Bool) (slots : List Child) :
    preorderAll (slots.filter keeps) ⊆ preorderAll slots := by
  rw [Tree.preorderAll_eq_flatMap, Tree.preorderAll_eq_flatMap]
  exact ((List.filter_sublist.filterMap _).flatMap _).subset

/-- Slots that make nothing may be left out. -/
theorem made_filter {keeps : Child → Bool}
    (h : ∀ slot ∈ slots, keeps slot = false → made [slot] = []) :
    made (slots.filter keeps) = made slots := by
  induction slots with
  | nil => rfl
  | cons slot slots ih =>
      have ih := ih fun other hother => h other (List.mem_cons_of_mem _ hother)
      by_cases hkeeps : keeps slot = true
      · rw [List.filter_cons_of_pos hkeeps, made_cons, ih, ← made_cons]
      · have hmade := h slot List.mem_cons_self (by simpa using hkeeps)
        rw [List.filter_cons_of_neg hkeeps, ih, made_cons slot, hmade, List.nil_append]

theorem stray_of_mem (h : stray slots = []) (hslot : slot ∈ slots) : stray [slot] = [] := by
  obtain ⟨before, after, rfl⟩ := List.mem_iff_append.1 hslot
  rw [← List.singleton_append, stray_append, stray_append] at h
  exact (List.append_eq_nil_iff.1 (List.append_eq_nil_iff.1 h).2).1

end Child

/-- What some events leave in a collector does not depend on how they came to it. -/
theorem Collector.Gathers.collected_eq {collector other : Collector} {events : List Declaration}
    (h : collector.Gathers events) (hother : other.Gathers events) :
    collector.collected = other.collected := by
  obtain ⟨_, ⟨ruleNames, aliasNames⟩⟩ := collector
  obtain ⟨_, ⟨ruleNames', aliasNames'⟩⟩ := other
  have hrules : ruleNames = ruleNames' := h.ruleNames.trans hother.ruleNames.symm
  have haliases : aliasNames = aliasNames' := h.aliasNames.trans hother.aliasNames.symm
  rw [hrules, haliases]

namespace Tree

/-- Every alternative with an alias is below a rule. -/
def AliasesBelowRules (tree : Tree) : Prop :=
  ∀ node ∈ tree.outsideRules, node.kind = .alternative → node.children.getLast? = some .absent

/-- The tree of a text without its statements of terminals. -/
def withoutTerminals : Tree → Tree
  | .node kind children span =>
      .node kind (children.filter fun slot => !slot.isOfTerminals) span

variable {source : String} {tree node : Tree}

theorem event?_eq_none_iff (hshape : node.isShapely = true) (hkind : node.kind ≠ .rule) :
    node.event? = none ↔
      (node.kind = .alternative → node.children.getLast? = some .absent) := by
  obtain ⟨kind, children, span⟩ := node
  cases kind with
  | rule => contradiction
  | alternative =>
      rcases children with _ | ⟨first, _ | ⟨target, _ | ⟨third, others⟩⟩⟩
      · contradiction
      · contradiction
      · cases target with
        | absent => simp [event?, Child.ruleName?, Child.token?]
        | tree node => contradiction
        | token leaf =>
            have hname : (Child.token leaf).ruleName?.isSome = true := hshape
            obtain ⟨name, hname⟩ := Option.isSome_iff_exists.1 hname
            simp [event?, hname]
      · cases target <;> contradiction
  | _ => simp [event?]

theorem aliasesBelowRules_iff (h : ofSource source = .ok tree) :
    tree.AliasesBelowRules ↔ Child.stray [.tree tree] = [] := by
  have hall : Child.outsideRulesAll [.tree tree] = tree.outsideRules := by
    simp [Child.outsideRulesAll]
  have hsub := (Child.outsideRulesAll_sublist [.tree tree]).subset
  rw [Child.stray, List.filterMap_eq_nil_iff, AliasesBelowRules, hall]
  refine forall₂_congr fun node hnode => (event?_eq_none_iff ?_ ?_).symm
  · have hmem := hsub (hall ▸ hnode)
    exact isShapely_of_mem_preorder h (by simpa [Child.preorderAll] using hmem)
  · exact Child.kind_ne_rule_of_mem_outsideRulesAll (hall ▸ hnode)

/-- **All aliases stand below rules** exactly if no statement of terminals gives any; and then what
is collected from the text, and listed by any policy, is what there is without its statements of
terminals. -/
theorem aliases_below_rules_iff (h : ofSource source = .ok tree) :
    (tree.AliasesBelowRules ↔ ∀ statement ∈ Token.statements source,
      TokenKind.isOfTerminals statement = true → ∀ name, ¬TokenKind.Aliases name statement) ∧
    (tree.AliasesBelowRules → ∃ collected, Collected.ofSource source = .ok collected ∧
      tree.withoutTerminals.collect = .ok collected ∧
      ∀ policy, ruleNames source policy = (collected.baseNames policy).mapError .broken) := by
  obtain ⟨trees, r, htree, hderives, hr⟩ := ofSource_eq_ok_iff.1 h
  have hstray : Child.stray [.tree tree] = Child.stray (trees.map .tree) := by
    rw [htree, Child.stray_node rfl]
  rw [aliasesBelowRules_iff h, hstray]
  constructor
  · have hlines := hderives.stray_lines_eq_nil_iff (TokenStream.terminated_ofSource source) hr
    rwa [TokenStream.kinds, TokenStream.toList_ofSource] at hlines
  intro hnone
  have hmade : Child.made [.tree tree.withoutTerminals] = Child.made [.tree tree] := by
    rw [htree, withoutTerminals, Child.made_node rfl, Child.made_node rfl]
    refine Child.made_filter fun slot hslot hterminals => ?_
    have hlaid : Child.Everywhere LaidOut [slot] := hderives.laidOut.of_mem hslot
    rw [← Child.stray_of_isOfTerminals hlaid (by simpa using hterminals)]
    exact Child.stray_of_mem (hstray ▸ hnone) hslot
  have hshapely : ∀ node ∈ tree.withoutTerminals.preorder, node.isShapely = true := by
    rw [htree, withoutTerminals, preorder, List.forall_mem_cons]
    refine ⟨rfl, fun node hnode => isShapely_of_mem_preorder h ?_⟩
    rw [htree, preorder]
    exact List.mem_cons_of_mem _ (Child.preorderAll_filter_subset _ _ hnode)
  obtain ⟨collector, hcollect, hgathers⟩ := collect_ofSource h
  obtain ⟨other, hother, hgathers'⟩ := collect_of_isShapely hshapely
  rw [hmade] at hgathers'
  have hcollected : Collected.ofSource source = .ok collector.collected := by
    rw [Collected.ofSource, h]
    change tree.collect.mapError Failure.broken = .ok collector.collected
    rw [hcollect]
    rfl
  refine ⟨collector.collected, hcollected, ?_, ?_⟩
  · rw [hother, hgathers'.collected_eq hgathers]
  · intro policy
    rw [ruleNames, hcollected]
    rfl

set_option maxRecDepth 4000 in
/-- In a group of a rule an alias stands below the rule. -/
theorem aliases_below_rules_grouped :
    ∃ tree, ofSource "a: (b -> c)\nA: (d)" = .ok tree ∧ tree.AliasesBelowRules ∧
      tree.withoutTerminals.collect = .ok ⟨["a"], ["c"]⟩ := by
  have hok : (ofSource "a: (b -> c)\nA: (d)").isOk = true := by cbv
  have hcollected : Collected.ofSource "a: (b -> c)\nA: (d)" = .ok ⟨["a"], ["c"]⟩ := by cbv
  have hstatements : Token.statements "a: (b -> c)\nA: (d)" =
      [[.rule "a", .punctuation .colon, .punctuation .leftParen, .rule "b", .punctuation .arrow,
          .rule "c", .punctuation .rightParen],
        [.terminal "A", .punctuation .colon, .punctuation .leftParen, .rule "d",
          .punctuation .rightParen, .endOfInput]] := by cbv
  cases htree : ofSource "a: (b -> c)\nA: (d)" with
  | error failure =>
      rw [htree] at hok
      contradiction
  | ok tree =>
      obtain ⟨hiff, himp⟩ := aliases_below_rules_iff htree
      have hbelow : tree.AliasesBelowRules := by
        refine hiff.2 ?_
        rw [hstatements]
        simp [TokenKind.isOfTerminals, TokenKind.Aliases, ← TokenKind.mem_targets,
          TokenKind.targets]
      obtain ⟨collected, hcollected', hcollect, -⟩ := himp hbelow
      obtain rfl := Except.ok.inj (hcollected.symm.trans hcollected')
      exact ⟨tree, rfl, hbelow, hcollect⟩

set_option maxRecDepth 4000 in
/-- In a group of a terminal an alias is accepted, and collected, though it stands below no rule. -/
theorem alias_below_terminal :
    ∃ tree, ofSource "A: (b -> c)" = .ok tree ∧ ¬tree.AliasesBelowRules ∧
      Collected.ofSource "A: (b -> c)" = .ok ⟨[], ["c"]⟩ := by
  let named : Tree :=
    .node .alternative
      [.tree (.node .expansion [.token ⟨.rule "b", ⟨4, 5, 1, 5⟩⟩] ⟨4, 5, 1, 5⟩),
        .token ⟨.rule "c", ⟨9, 10, 1, 10⟩⟩] ⟨4, 10, 1, 5⟩
  have h : ofSource "A: (b -> c)" = .ok
      (.node .start
        [.tree (.node .term
          [.token ⟨.terminal "A", ⟨0, 1, 1, 1⟩⟩, .absent,
            .tree (.node .expansions
              [.tree (.node .alternative
                [.tree (.node .expansion
                  [.tree (.node .expansions [.tree named] ⟨3, 11, 1, 4⟩)] ⟨3, 11, 1, 4⟩),
                  .absent] ⟨3, 11, 1, 4⟩)] ⟨3, 11, 1, 4⟩)] ⟨0, 11, 1, 1⟩)]
        ⟨0, 11, 1, 1⟩) := by cbv
  refine ⟨_, h, fun hbelow => ?_, by cbv⟩
  have hnamed := hbelow named ?inTree rfl
  · simp [named] at hnamed
  · exact .tail _ (.tail _ (.tail _ (.tail _ (.tail _ (.tail _ (.head _))))))

end Tree

end GrammarCatalog
