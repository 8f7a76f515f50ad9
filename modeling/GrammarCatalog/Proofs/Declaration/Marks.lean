/-
**Where marked names stand.**

An exclamation mark or a question mark belongs to a name only where a definition may begin: in front
of all tokens of a statement, or behind a directive that leads a definition.  The scanner keeps that
in one flag.  A line break sets it again, comments leave it as it is, and all other tokens clear it.
So in a statement no name behind the first one is marked, and the first one stands where the parser
expects the name of a rule.  Aliases stand further back.  They may be inner, since an underscore is
a part of the name, but they are neither pinned nor conditional.

Main definitions:

* `GrammarCatalog.TokenKind.isMarked` — a name that begins with an exclamation mark or a question
  mark;
* `GrammarCatalog.TokenKind.MarksOpen` — **the invariant**: marked names stand only where a
  definition may begin;
* `GrammarCatalog.Tree.MarksNames` — a node has a marked name only as the name of a rule.

Main results:

* `GrammarCatalog.Scan.marksOpen` — the tokens of a text have the invariant;
* `GrammarCatalog.Phrase.Derives.unmarked` — behind the beginning of a statement nothing is marked;
* `GrammarCatalog.Phrase.Derives.marksNames_lines` — all nodes of a text have marks on names alone;
* `GrammarCatalog.Tree.marks_on_names` — **only the names of rules are marked**.
-/

import GrammarCatalog.Proofs.Declaration.Filtering
import GrammarCatalog.Proofs.Declaration.NoFault
import GrammarCatalog.Proofs.Declaration.Origins
import GrammarCatalog.Proofs.Token.Concatenation
import GrammarCatalog.Proofs.Token.Rescanned
import GrammarCatalog.Proofs.Tree.Layout
import GrammarCatalog.Proofs.Tree.Leaves

set_option relaxedAutoImplicit false
set_option autoImplicit false

namespace GrammarCatalog

/-! ### Marked names among tokens -/

namespace TokenKind

/-- A rule name that begins with an exclamation mark or a question mark. -/
def isMarked : TokenKind → Bool
  | rule name => name.toList.head?.any Lexeme.isMark
  | _ => false

/-- **The invariant**: marked names stand only where a definition may begin.  The flag says whether
one may begin in front of these tokens. -/
def MarksOpen (opening : Bool) : List TokenKind → Prop
  | [] => True
  | kind :: kinds =>
      (kind.isMarked = true → opening = true) ∧ MarksOpen (Scan.opensAfter opening kind) kinds

variable {opening : Bool} {kind : TokenKind} {kinds others : List TokenKind}

/-- What stands behind other tokens has the invariant with some flag. -/
theorem MarksOpen.of_append (h : MarksOpen opening (kinds ++ others)) :
    ∃ behind, MarksOpen behind others := by
  induction kinds generalizing opening with
  | nil => exact ⟨opening, h⟩
  | cons kind kinds ih => exact ih h.2

/-- Only a line break opens what is closed. -/
theorem opensAfter_false (hkind : kind ≠ .newline) : Scan.opensAfter false kind = false := by
  cases kind with
  | newline => contradiction
  | _ => rfl

/-- Where no definition may begin, no name is marked up to the next line break, and none may begin
there either. -/
theorem MarksOpen.closed (h : MarksOpen false (kinds ++ others)) (hnot : .newline ∉ kinds) :
    (∀ kind ∈ kinds, kind.isMarked = false) ∧ MarksOpen false others := by
  induction kinds with
  | nil => exact ⟨by simp, h⟩
  | cons kind kinds ih =>
      rw [List.mem_cons, not_or] at hnot
      obtain ⟨hkind, hkinds⟩ := h
      rw [opensAfter_false (Ne.symm hnot.1)] at hkinds
      obtain ⟨hunmarked, hothers⟩ := ih hkinds hnot.2
      have hfirst : kind.isMarked = false :=
        Bool.eq_false_iff.2 fun hmark => by simpa using hkind hmark
      exact ⟨List.forall_mem_cons.2 ⟨hfirst, hunmarked⟩, hothers⟩

end TokenKind

namespace Lexeme

/-- Where no definition may begin, no marked name is read. -/
theorem isMarked_scan_false (c : Char) (cs : List Char) :
    (scan false c cs).kind.isMarked = false := by
  cases hkind : (scan false c cs).kind with
  | rule name =>
      rw [scan, Bool.false_and, if_neg Bool.false_ne_true] at hkind
      split at hkind
      · exact absurd hkind (scanNumber_ne_rule false _ name)
      · split at hkind
        · rename_i hstart
          -- the name begins with its first letter or underscore, which is no mark
          have htake : (c :: cs).takeWhile Name.isPart = c :: cs.takeWhile Name.isPart := by
            simp [Name.isPart, hstart]
          have hname : nameKind (c :: cs.takeWhile Name.isPart) = .rule name := by
            rwa [scanName, htake] at hkind
          have htext : (nameKind (c :: cs.takeWhile Name.isPart)).text.toList =
              c :: cs.takeWhile Name.isPart := text_nameKind (by rw [hname]; rfl)
          rw [hname, TokenKind.text] at htext
          simp [TokenKind.isMarked, htext, isMark_eq_false_of_isStart hstart]
        · exact absurd hkind (scanSymbol_ne_rule c cs name)
  | _ => rfl

end Lexeme

namespace Scan

open TokenKind (MarksOpen)

/-- A step comes to a marked name only where a definition may begin. -/
theorem Step.opening_of_isMarked {scan : Scan} {next : Token × Scan} (h : Step scan next)
    (hmark : next.1.kind.isMarked = true) : scan.opening = true := by
  cases h with
  | finish _ _ => contradiction
  | newline _ _ _ _ _ _ _ => contradiction
  | @lexeme gap c cs _ _ _ _ =>
      by_contra hopening
      rw [Bool.not_eq_true] at hopening
      change (Lexeme.scan scan.opening c cs).kind.isMarked = true at hmark
      rw [hopening, Lexeme.isMarked_scan_false] at hmark
      contradiction

/-- The tokens of a text have the invariant. -/
theorem marksOpen (scan : Scan) : MarksOpen scan.opening (scan.significant.map Token.kind) := by
  refine tokens_induction
    (motive := fun scan _ => MarksOpen scan.opening (scan.significant.map Token.kind)) ?_ ?_ scan
  · intro scan token after hstep hend
    rw [significant_of_end hstep hend]
    exact ⟨hstep.opening_of_isMarked, trivial⟩
  · intro scan token after hstep hkind ih
    have hopening := hstep.opening_eq hkind
    by_cases htrivia : token.kind.isTrivia = true
    · rw [significant_of_comment hstep htrivia]
      -- a comment leaves the flag as it is
      have hsame : opensAfter scan.opening token.kind = scan.opening := by
        cases hkind : token.kind with
        | comment text => rfl
        | _ => rw [hkind] at htrivia; contradiction
      rwa [hopening, hsame] at ih
    · rw [significant_of_step hstep hkind (by simpa using htrivia)]
      rw [hopening] at ih
      exact ⟨hstep.opening_of_isMarked, ih⟩

end Scan

/-! ### Marked names in slots -/

/-- A node has a marked name only as the name of a rule. -/
def Tree.MarksNames (node : Tree) : Prop :=
  ∀ (position : ℕ) (leaf : Token), node.children[position]? = some (.token leaf) →
    leaf.kind.isMarked = true → node.kind = .rule ∧ position = 0

namespace Child

/-- No leaf in these slots is a marked name. -/
def Unmarked (slots : List Child) : Prop :=
  ∀ leaf ∈ leavesAll slots, leaf.kind.isMarked = false

variable {slot : Child} {slots : List Child} {trees : List Tree} {kind : NodeKind} {span : Span}

theorem Unmarked.cons (h : Unmarked [slot]) (hslots : Unmarked slots) :
    Unmarked (slot :: slots) := by
  intro leaf hleaf
  rw [leavesAll, List.mem_append] at hleaf
  rcases hleaf with hleaf | hleaf
  · exact h leaf (by simpa [leavesAll] using hleaf)
  · exact hslots leaf hleaf

theorem unmarked_absent : Unmarked [.absent] := by simp [Unmarked, leavesAll, leaves]

theorem unmarked_token {leaf : Token} (h : leaf.kind.isMarked = false) :
    Unmarked [.token leaf] := by
  simpa [Unmarked, leavesAll, leaves] using h

/-- Nodes have no marked names if there are none among the leaves. -/
theorem Unmarked.marksNames (h : Unmarked slots) : Everywhere Tree.MarksNames slots := by
  intro node hnode position leaf hleaf hmark
  have hmem : leaf ∈ node.leaves := by
    obtain ⟨kind, children, span⟩ := node
    exact mem_leavesAll.2 ⟨_, List.mem_of_getElem? hleaf, List.mem_singleton_self leaf⟩
  rw [h leaf (leaves_subset_of_mem_preorderAll slots node hnode hmem)] at hmark
  contradiction

/-- A node has no marked names if there are none among the leaves below it. -/
theorem Unmarked.marksNames_node (h : Unmarked slots) :
    Everywhere Tree.MarksNames [.tree (.node kind slots span)] := by
  have hnode : Unmarked [.tree (.node kind slots span)] := by
    simpa [Unmarked, leavesAll, leaves, Tree.leaves] using h
  exact hnode.marksNames

/-- The name of a rule may be marked. -/
theorem Unmarked.marksNames_rule (h : Unmarked slots) (name : Token) :
    Everywhere Tree.MarksNames [.tree (.node .rule (.token name :: slots) span)] := by
  refine everywhere_node.2 ⟨?_, (everywhere_token_cons name).2 h.marksNames⟩
  intro position leaf hleaf hmark
  cases position with
  | zero => exact ⟨rfl, rfl⟩
  | succ position =>
      have hslot : Child.token leaf ∈ slots := List.mem_of_getElem? hleaf
      rw [h leaf (mem_leavesAll.2 ⟨_, hslot, List.mem_singleton_self leaf⟩)] at hmark
      contradiction

/-- A node whose slots are nodes has no names of its own. -/
theorem marksNames_of_trees (trees : List Tree)
    (h : Everywhere Tree.MarksNames (trees.map .tree)) :
    Everywhere Tree.MarksNames [.tree (.node kind (trees.map .tree) span)] := by
  refine everywhere_node.2 ⟨?_, h⟩
  intro position leaf hleaf
  obtain ⟨node, -, hnode⟩ := List.mem_map.1 (List.mem_of_getElem? hleaf)
  contradiction

end Child

/-! ### Marked names in statements -/

namespace Phrase

open Child (Everywhere Unmarked)
open TokenKind (MarksOpen)

variable {n : ℕ} {s r : TokenStream}

/-- Where no definition may begin, a part of a statement takes no marked name, and none may begin
behind it. -/
theorem Derives.unmarked {phrase : Phrase} {slots : List Child} (h : phrase.Derives n s r slots)
    (hphrase : phrase.InStatement) (hoccurs : phrase.Occurs) (hs : MarksOpen false s.kinds) :
    Unmarked slots ∧ MarksOpen false r.kinds := by
  obtain ⟨tokens, htokens⟩ := h.suffix
  obtain ⟨taken, htaken, hnot⟩ := (h.passes hphrase).unbroken
  obtain rfl : tokens.map Token.kind = taken := by
    rw [TokenStream.kinds, ← htokens, List.map_append] at htaken
    exact List.append_cancel_right htaken
  rw [htaken] at hs
  obtain ⟨hunmarked, hr⟩ := hs.closed hnot
  refine ⟨fun leaf hleaf => ?_, hr⟩
  by_contra hmark
  -- a marked name has content, so the leaf is one of the tokens that were taken
  have hkept := h.keptAll_append_contents hoccurs
  rw [← htokens, contents, contents, List.filter_append, List.append_left_inj] at hkept
  have hmem : leaf ∈ Child.keptAll slots := by
    refine List.mem_filter.2 ⟨hleaf, ?_⟩
    cases hkind : leaf.kind with
    | rule name => rfl
    | _ => rw [hkind] at hmark; exact absurd rfl hmark
  rw [hkept] at hmem
  exact hmark (hunmarked _ (List.mem_map_of_mem (List.mem_of_mem_filter hmem)))

/-- In a definition a name is marked only as the name of a rule. -/
theorem Derives.marksNames_definition {slot : Child} (h : Derives .definition n s r [slot])
    (hs : MarksOpen true s.kinds) : Everywhere Tree.MarksNames [slot] := by
  cases h with
  | @rule _ name colon s₁ s₂ s₃ _ params priority body hname hparams hpriority hcolon hbody =>
      obtain ⟨text, htext⟩ := TokenKind.exists_rule_of_isRule hname
      rw [TokenStream.kinds_cons, htext] at hs
      obtain ⟨hparams, hs₂⟩ := hparams.unmarked trivial trivial hs.2
      obtain ⟨hpriority, hs₃⟩ := hpriority.unmarked trivial trivial hs₂
      rw [TokenStream.kinds_cons, hcolon] at hs₃
      obtain ⟨hbody, -⟩ := hbody.unmarked trivial trivial hs₃.2
      exact (hparams.cons (hpriority.cons hbody)).marksNames_rule name
  | @term _ name colon s₁ s₂ _ priority body hname hpriority hcolon hbody =>
      cases hkind : name.kind with
      | terminal text =>
          rw [TokenStream.kinds_cons, hkind] at hs
          obtain ⟨hpriority, hs₂⟩ := hpriority.unmarked trivial trivial hs.2
          rw [TokenStream.kinds_cons, hcolon] at hs₂
          obtain ⟨hbody, -⟩ := hbody.unmarked trivial trivial hs₂.2
          have hname : name.kind.isMarked = false := by rw [hkind]; rfl
          exact ((Child.unmarked_token hname).cons (hpriority.cons hbody)).marksNames_node
      | _ => rw [hkind] at hname; contradiction

/-- Behind a directive a definition may begin if the directive leads one. -/
theorem marksOpen_directive {directive : Token} {which : Directive}
    (hdirective : directive.kind.isDirective which = true)
    (hs : MarksOpen true (s.cons directive).kinds) : MarksOpen which.leadsDefinition s.kinds := by
  have hkind : directive.kind = .directive which.name := by
    simpa [TokenKind.isDirective] using hdirective
  rw [TokenStream.kinds_cons, hkind] at hs
  have hopens : Scan.opensAfter true (.directive which.name) = which.leadsDefinition := by
    simp [Scan.opensAfter]
  rw [← hopens]
  exact hs.2

/-- In a statement a name is marked only as the name of a rule. -/
theorem Derives.marksNames_statement {slot : Child} (h : Derives .statement n s r [slot])
    (hs : MarksOpen true s.kinds) : Everywhere Tree.MarksNames [slot] := by
  cases h with
  | defines h => exact h.marksNames_definition hs
  | ignore hdirective hbody =>
      obtain ⟨hbody, -⟩ := hbody.unmarked trivial trivial (marksOpen_directive hdirective hs)
      exact hbody.marksNames_node
  | importPath hdirective hpath =>
      obtain ⟨hpath, -⟩ := hpath.unmarked trivial trivial (marksOpen_directive hdirective hs)
      exact (hpath.cons Child.unmarked_absent).marksNames_node
  | importAs hdirective hpath harrow _ =>
      obtain ⟨hpath, hr⟩ := hpath.unmarked trivial trivial (marksOpen_directive hdirective hs)
      rw [TokenStream.kinds_cons, harrow] at hr
      have htarget := Child.unmarked_token (Bool.eq_false_of_not_eq_true fun hmark =>
        Bool.false_ne_true (hr.2.1 hmark))
      exact (hpath.cons htarget).marksNames_node
  | importNames hdirective hpath hopening hnames _ =>
      obtain ⟨hpath, hm⟩ := hpath.unmarked trivial trivial (marksOpen_directive hdirective hs)
      rw [TokenStream.kinds_cons, hopening] at hm
      obtain ⟨hnames, -⟩ := hnames.unmarked ⟨by decide, fun _ hkind => hkind⟩
        ⟨rfl, fun _ hkind => hkind⟩ hm.2
      exact (hpath.cons hnames).marksNames_node
  | declare hdirective hnames =>
      obtain ⟨hnames, -⟩ := hnames.unmarked trivial trivial (marksOpen_directive hdirective hs)
      exact hnames.marksNames_node
  | @override _ _ _ _ body hdirective hbody =>
      have hbody := hbody.marksNames_definition (marksOpen_directive hdirective hs)
      exact Child.marksNames_of_trees [body] hbody
  | @extend _ _ _ _ body hdirective hbody =>
      have hbody := hbody.marksNames_definition (marksOpen_directive hdirective hs)
      exact Child.marksNames_of_trees [body] hbody

/-- In a text a name is marked only as the name of a rule. -/
theorem Derives.marksNames_lines {slots : List Child} (h : Derives .lines n s r slots)
    (hs : MarksOpen true s.kinds) : Everywhere Tree.MarksNames slots := by
  generalize hphrase : Phrase.lines = phrase at h
  induction h with
  | noLine => exact Child.everywhere_nil
  | blankLine hnewline _ ih =>
      rw [TokenStream.kinds_cons, hnewline] at hs
      exact ih hs.2 hphrase
  | line hstatement hnewline _ _ ih =>
      have hslot := hstatement.marksNames_statement hs
      obtain ⟨tokens, htokens⟩ := hstatement.suffix
      rw [TokenStream.kinds, ← htokens, List.map_append] at hs
      -- whatever the statement was, the line break opens the next one
      obtain ⟨opening, hline⟩ := hs.of_append
      rw [TokenStream.toList_cons, List.map_cons, hnewline] at hline
      exact hslot.cons (ih hline.2 hphrase)
  | lastLine hstatement => exact hstatement.marksNames_statement hs
  | _ => cases hphrase

end Phrase

/-! ### Aliases -/

namespace Tree

variable {source : String} {tree : Tree}

/-- All nodes of the tree of a text have marked names only as the names of rules. -/
theorem marksNames_ofSource (h : ofSource source = .ok tree) :
    ∀ node ∈ tree.preorder, node.MarksNames := by
  obtain ⟨trees, r, rfl, hderives, -⟩ := ofSource_eq_ok_iff.1 h
  have hopen : TokenKind.MarksOpen true (TokenStream.ofSource source).kinds := by
    rw [TokenStream.kinds, TokenStream.toList_ofSource]
    exact (Scan.ofSource source).marksOpen
  intro node hnode
  exact Child.marksNames_of_trees trees (hderives.marksNames_lines hopen) node
    (by simpa [Child.preorderAll] using hnode)

/-- The event of an alias comes from a token in the second slot. -/
theorem exists_target_of_event {node : Tree} {name : String}
    (h : node.event? = some ⟨name, .aliased⟩) :
    ∃ leaf : Token, node.children[1]? = some (.token leaf) ∧ leaf.kind = .rule name := by
  unfold event? at h
  split at h
  · obtain ⟨_, -, heq⟩ := Option.map_eq_some_iff.1 h
    cases heq
  · obtain ⟨text, htext, heq⟩ := Option.map_eq_some_iff.1 h
    cases heq
    obtain ⟨slot, hslot, hname⟩ := Option.bind_eq_some_iff.1 htext
    obtain ⟨leaf, hleaf, hrule⟩ := Option.bind_eq_some_iff.1 hname
    refine ⟨leaf, ?_, ?_⟩
    · cases slot with
      | token other =>
          obtain rfl : other = leaf := Option.some.inj hleaf
          exact hslot
      | _ => contradiction
    · cases hkind : leaf.kind with
      | rule text =>
          rw [hkind] at hrule
          exact congrArg TokenKind.rule (Option.some.inj hrule)
      | _ => rw [hkind] at hrule; contradiction
  · contradiction

/-- Aliases are spelled without exclamation mark and question mark. -/
theorem isMarked_of_mem_made (h : ofSource source = .ok tree) {name : String}
    (hname : ⟨name, .aliased⟩ ∈ Child.made [.tree tree]) :
    (TokenKind.rule name).isMarked = false := by
  obtain ⟨node, hnode, hevent⟩ := List.mem_filterMap.1 hname
  obtain ⟨leaf, hleaf, hkind⟩ := exists_target_of_event hevent
  rw [← hkind]
  by_contra hmark
  have hnames := marksNames_ofSource h node (by simpa [Child.preorderAll] using hnode)
  exact absurd (hnames 1 leaf hleaf (by simpa using hmark)).2 (by decide)

end Tree

namespace Declaration

/-- What is spelled without marks in front is neither pinned nor conditional. -/
theorem classify_of_not_isMarked {spelling : String} {kind : Kind} {name : ClassifiedName}
    (h : classify ⟨spelling, kind⟩ = .ok name)
    (hmark : (TokenKind.rule spelling).isMarked = false) :
    name.isPinned = false ∧ name.isConditional = false := by
  obtain ⟨base, ⟨pinned, visibility⟩, declared⟩ := name
  obtain rfl : (⟨pinned, visibility⟩ : Markers).text ++ base = spelling :=
    congrArg Declaration.spelling (classify_eq_ok_iff.1 h).1
  cases pinned with
  | true =>
      simp [TokenKind.isMarked, Markers.text, Markers.chars, Lexeme.isMark] at hmark
  | false =>
      cases visibility with
      | conditional =>
          simp [TokenKind.isMarked, Markers.text, Markers.chars, Visibility.marker?,
            Lexeme.isMark] at hmark
      | _ => exact ⟨rfl, rfl⟩

end Declaration

namespace Collected

variable {collected : Collected} {names : List ClassifiedName} {name : ClassifiedName}

/-- The aliases of a text are spelled without exclamation mark and question mark. -/
theorem isMarked_of_mem_aliasNames {source spelling : String} (h : ofSource source = .ok collected)
    (hspelling : spelling ∈ collected.aliasNames) : (TokenKind.rule spelling).isMarked = false := by
  obtain ⟨tree, htree, hcollect⟩ := ofSource_eq_ok_iff.1 h
  obtain ⟨collector, hcollect', hgathers⟩ := Tree.collect_ofSource htree
  obtain rfl := Except.ok.inj (hcollect.symm.trans hcollect')
  rw [hgathers.aliasNames] at hspelling
  obtain ⟨⟨other, _⟩, hevent, rfl⟩ := Declaration.mem_firstSeen.1 hspelling
  obtain rfl : other = spelling := by simpa using List.find?_some hevent
  exact Tree.isMarked_of_mem_made htree (List.mem_of_find?_eq_some hevent)

/-- The aliases of a text are neither pinned nor conditional. -/
theorem not_pinned_of_alias {source : String} (h : ofSource source = .ok collected)
    (hnames : collected.declarations.mapM Declaration.classify = .ok names) (hname : name ∈ names)
    (hkind : name.kind = .aliased) : name.isPinned = false ∧ name.isConditional = false := by
  obtain ⟨hdeclarations, hlower⟩ := Declaration.mapM_classify_eq_ok_iff.1 hnames
  have hmem : name.declaration ∈ collected.declarations :=
    hdeclarations ▸ List.mem_map_of_mem hname
  exact Declaration.classify_of_not_isMarked
    (Declaration.classify_eq_ok_iff.2 ⟨rfl, hlower name hname⟩)
    (isMarked_of_mem_aliasNames h (mem_aliasNames_of_kind hmem hkind))

/-- The switches for pinned and conditional names do not rule on names that are neither. -/
theorem filter_aliased_select (h : collected.declarations.mapM Declaration.classify = .ok names)
    (hplain : ∀ name ∈ names, name.kind = .aliased →
      name.isPinned = false ∧ name.isConditional = false)
    (policy : Policy) (pinned conditional : Bool) :
    ∃ before after, collected.select policy = .ok before ∧
      collected.select ((policy.withPinned pinned).withConditional conditional) = .ok after ∧
      after.filter (·.kind == .aliased) = before.filter (·.kind == .aliased) := by
  refine ⟨_, _, select_eq_filter h _, select_eq_filter h _, ?_⟩
  rw [List.filter_filter, List.filter_filter]
  refine List.filter_congr fun name hname => ?_
  cases hkind : name.kind with
  | rule => rfl
  | aliased =>
      obtain ⟨hpinned, hconditional⟩ := hplain name hname hkind
      simp [Policy.lists, Policy.admits, hpinned, hconditional, Policy.withPinned,
        Policy.withConditional]

end Collected

/-- **Only the names of rules are marked.**  In the tree of a text, a name with an exclamation mark
or a question mark in front stands in the first slot of a rule.  So no alias is pinned or
conditional, and which aliases are listed does not depend on the switches for such names. -/
theorem Tree.marks_on_names {source : String} {tree : Tree} (h : ofSource source = .ok tree) :
    (∀ node ∈ tree.preorder, ∀ (position : ℕ) (leaf : Token),
      node.children[position]? = some (.token leaf) → leaf.kind.isMarked = true →
        node.kind = .rule ∧ position = 0) ∧
    ∃ collected, Collected.ofSource source = .ok collected ∧
      (∀ declaration ∈ collected.aliases, ∃ name, declaration.classify = .ok name ∧
        name.isPinned = false ∧ name.isConditional = false) ∧
      ∀ (policy : Policy) (pinned conditional : Bool), ∃ before after,
        collected.select policy = .ok before ∧
        collected.select ((policy.withPinned pinned).withConditional conditional) = .ok after ∧
        after.filter (·.kind == .aliased) = before.filter (·.kind == .aliased) := by
  refine ⟨marksNames_ofSource h, ?_⟩
  obtain ⟨collected, hcollect, hdeclared⟩ := exists_collect_eq_ok h
  have hsource := Collected.ofSource_eq_ok_iff.2 ⟨tree, h, hcollect⟩
  obtain ⟨names, hnames, -⟩ := Collected.exists_classify_eq_ok hdeclared
  have hplain (name : ClassifiedName) (hname : name ∈ names) (hkind : name.kind = .aliased) :=
    Collected.not_pinned_of_alias hsource hnames hname hkind
  refine ⟨collected, hsource, ?_, Collected.filter_aliased_select hnames hplain⟩
  intro declaration hdeclaration
  obtain ⟨hdeclarations, hlower⟩ := Declaration.mapM_classify_eq_ok_iff.1 hnames
  have hmem : declaration ∈ names.map ClassifiedName.declaration :=
    hdeclarations ▸ List.mem_append_right _ hdeclaration
  obtain ⟨name, hname, rfl⟩ := List.mem_map.1 hmem
  obtain ⟨spelling, -, heq⟩ := List.mem_map.1 hdeclaration
  have hkind : name.kind = .aliased := (congrArg Declaration.kind heq).symm
  exact ⟨name, Declaration.classify_eq_ok_iff.2 ⟨rfl, hlower name hname⟩,
    hplain name hname hkind⟩

set_option maxRecDepth 4000 in
/-- Behind a directive that leads a definition and below a line break names are marked; an alias may
be inner. -/
theorem Tree.marks_on_names_override :
    ∃ tree, ofSource "%override ?a: b -> _c\n!d: a" = .ok tree ∧
      (tree.leaves.filter (·.kind.isMarked)).map Token.kind = [.rule "?a", .rule "!d"] ∧
      (∀ node ∈ tree.preorder, ∀ (position : ℕ) (leaf : Token),
        node.children[position]? = some (.token leaf) → leaf.kind.isMarked = true →
          node.kind = .rule ∧ position = 0) ∧
      ∃ collected, Collected.ofSource "%override ?a: b -> _c\n!d: a" = .ok collected ∧
        collected.aliases = [⟨"_c", .aliased⟩] ∧
        ∀ declaration ∈ collected.aliases, ∃ name, declaration.classify = .ok name ∧
          name.isPinned = false ∧ name.isConditional = false := by
  have hok : (ofSource "%override ?a: b -> _c\n!d: a").toOption.map (fun tree =>
      (tree.leaves.filter (·.kind.isMarked)).map Token.kind) =
        some [.rule "?a", .rule "!d"] := by cbv
  have hcollected : Collected.ofSource "%override ?a: b -> _c\n!d: a" =
      .ok ⟨["?a", "!d"], ["_c"]⟩ := by cbv
  cases htree : ofSource "%override ?a: b -> _c\n!d: a" with
  | error failure => rw [htree] at hok; contradiction
  | ok tree =>
      obtain ⟨hnames, collected, hsource, haliases, -⟩ := marks_on_names htree
      obtain rfl := Except.ok.inj (hcollected.symm.trans hsource)
      rw [htree] at hok
      exact ⟨tree, rfl, Option.some.inj hok, hnames, _, hsource, rfl, haliases⟩

end GrammarCatalog
