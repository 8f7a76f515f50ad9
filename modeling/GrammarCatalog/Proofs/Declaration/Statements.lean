/-
**What statements declare.**

The nodes that parsing makes of a statement declare what its tokens say: the name that the statement
defines comes first, and then its aliases.

The aliases in a statement are counted: passing a phrase takes as many arrows with a name as there
are aliases of that name among its nodes.

Main definitions:

* `GrammarCatalog.Child.made` — the events of all nodes in some slots;
* `GrammarCatalog.Phrase.Passes` — what is passed between two streams: no line break, and the
  arrows of some aliases.

Main results:

* `GrammarCatalog.Phrase.Derives.passes` — the body of a statement makes the aliases that it passes;
* `GrammarCatalog.Phrase.Derives.reads` — **a statement makes what its tokens say**;
* `GrammarCatalog.Phrase.Derives.forall₂_lines` — a text is its statements, one after the other;
* `GrammarCatalog.Phrase.Derives.readsAll` — so do all statements of a text.
-/

import GrammarCatalog.Proofs.Declaration.Events
import GrammarCatalog.Proofs.Token.Statements
import GrammarCatalog.Proofs.Tree.Declarations

set_option relaxedAutoImplicit false
set_option autoImplicit false

namespace GrammarCatalog

/-! ### What nodes make -/

namespace Child

/-- The events of all nodes in some slots. -/
def made (slots : List Child) : List Declaration := (preorderAll slots).filterMap Tree.event?

@[simp] theorem made_nil : made [] = [] := rfl

@[simp] theorem made_token (leaf : Token) (slots : List Child) :
    made (.token leaf :: slots) = made slots := rfl

@[simp] theorem made_absent (slots : List Child) : made (.absent :: slots) = made slots := rfl

@[simp] theorem made_tokens (leaves : List Token) : made (leaves.map .token) = [] := by
  induction leaves with
  | nil => rfl
  | cons leaf leaves ih => rwa [List.map_cons, made_token]

/-- The slots of a list make their events one after the other. -/
theorem made_cons (slot : Child) (slots : List Child) :
    made (slot :: slots) = made [slot] ++ made slots := by
  cases slot with
  | tree node => simp [made, preorderAll]
  | token leaf => rfl
  | absent => rfl

theorem made_append (slots others : List Child) :
    made (slots ++ others) = made slots ++ made others := by
  induction slots with
  | nil => rfl
  | cons slot slots ih =>
      rw [List.cons_append, made_cons, ih, made_cons slot slots, List.append_assoc]

theorem made_flatten (pieces : List (List Child)) :
    made pieces.flatten = (pieces.map made).flatten := by
  induction pieces with
  | nil => rfl
  | cons piece pieces ih => rw [List.flatten_cons, made_append, ih]; rfl

theorem made_event (kind : NodeKind) (slots : List Child) (span : Span) :
    made [.tree (.node kind slots span)] =
      (Tree.node kind slots span).event?.toList ++ made slots := by
  rw [made, preorderAll, Tree.preorder, preorderAll, List.append_nil]
  cases hevent : (Tree.node kind slots span).event? with
  | none => rw [List.filterMap_cons_none hevent]; rfl
  | some event => rw [List.filterMap_cons_some hevent]; rfl

/-- A node of a kind that declares nothing makes what its slots make. -/
theorem made_node {kind : NodeKind} (hkind : kind.declares = false) (slots : List Child)
    (span : Span) : made [.tree (.node kind slots span)] = made slots := by
  rw [made_event]
  cases kind with
  | rule => contradiction
  | alternative => contradiction
  | _ => rfl

theorem made_expansionsNode (alternatives : List Tree) :
    made [.tree (Parse.expansionsNode alternatives)] = made (alternatives.map .tree) :=
  made_node rfl _ _

theorem made_unnamed (items : Child) (span : Span) :
    made [.tree (.node .alternative [items, .absent] span)] = made [items] := by
  rw [made_event, made_cons, made_absent, made_nil, List.append_nil]
  rfl

/-- An alternative makes its alias before what its items make. -/
theorem made_named {target : Token} {name : String} (htarget : target.kind = .rule name)
    (items : Child) (span : Span) :
    made [.tree (.node .alternative [items, .token target] span)] =
      ⟨name, .aliased⟩ :: made [items] := by
  rw [made_event, made_cons, made_token, made_nil, List.append_nil]
  simp [Tree.event?, ruleName?, token?, htarget, TokenKind.ruleName?]

/-- A rule makes its name before what its body makes. -/
theorem made_rule {leaf : Token} {name : String} (hleaf : leaf.kind = .rule name)
    (slots : List Child) (span : Span) :
    made [.tree (.node .rule (.token leaf :: slots) span)] = ⟨name, .rule⟩ :: made slots := by
  rw [made_event, made_token]
  simp [Tree.event?, ruleName?, token?, hleaf, TokenKind.ruleName?]

end Child

/-! ### Phrases in statements -/

namespace Phrase

open Child (made made_cons made_node made_event)
open TokenKind (targets targets_cons isPlain_of_suits isPlain_of_eq ne_of_isPlain)

/-- **What is passed between two streams**: no line break, and for each of some aliases an arrow
with its name. -/
structure Passes (s r : TokenStream) (aliases : List Declaration) : Prop where
  /-- No line break is passed. -/
  unbroken : ∃ taken, s.kinds = taken ++ r.kinds ∧ .newline ∉ taken
  /-- The names behind the arrows are those of the aliases. -/
  count (name : String) : (targets s.kinds).count name =
    (aliases.map Declaration.spelling).count name + (targets r.kinds).count name
  /-- The aliases are aliases. -/
  aliased : ∀ event ∈ aliases, event.kind = .aliased

namespace Passes

variable {s m r : TokenStream} {aliases others : List Declaration} {t : Token}

theorem refl (r : TokenStream) : Passes r r [] := ⟨⟨[], rfl, by simp⟩, by simp, by simp⟩

theorem trans (h : Passes s m aliases) (h' : Passes m r others) :
    Passes s r (aliases ++ others) where
  unbroken := by
    obtain ⟨first, hfirst, hnot⟩ := h.unbroken
    obtain ⟨second, hsecond, hnot'⟩ := h'.unbroken
    refine ⟨first ++ second, by rw [hfirst, hsecond, List.append_assoc], ?_⟩
    simp [hnot, hnot']
  count name := by rw [h.count, h'.count, List.map_append, List.count_append, Nat.add_assoc]
  aliased event hevent := (List.mem_append.1 hevent).elim (h.aliased event) (h'.aliased event)

theorem comm (h : Passes s r (aliases ++ others)) : Passes s r (others ++ aliases) where
  unbroken := h.unbroken
  count name := by
    rw [h.count, List.map_append, List.map_append, List.count_append, List.count_append,
      Nat.add_comm (List.count _ _)]
  aliased event hevent := h.aliased event (List.mem_append.2 (List.mem_append.1 hevent).symm)

/-- A token that is neither an arrow nor a line break is passed. -/
theorem token (ht : t.kind.isPlain = true) : Passes (r.cons t) r [] where
  unbroken := ⟨[t.kind], rfl, by simpa using (ne_of_isPlain ht).2.symm⟩
  count name := by
    rw [TokenStream.kinds_cons, targets_cons (ne_of_isPlain ht).1]
    simp
  aliased := by simp

/-- Such a token in front of what is passed. -/
theorem front (h : Passes s r aliases) (ht : t.kind.isPlain = true) :
    Passes (s.cons t) r aliases := (token ht).trans h

/-- Such a token behind what is passed. -/
theorem back (h : Passes s (r.cons t) aliases) (ht : t.kind.isPlain = true) :
    Passes s r aliases := by simpa using h.trans (token ht)

/-- An arrow with its name is passed by an alias. -/
theorem arrow {arrow target : Token} {name : String} (harrow : arrow.kind = .punctuation .arrow)
    (htarget : target.kind = .rule name) :
    Passes ((r.cons target).cons arrow) r [⟨name, .aliased⟩] where
  unbroken := ⟨[arrow.kind, target.kind], rfl, by simp [harrow, htarget]⟩
  count other := by
    simp [harrow, htarget, targets, List.count_cons]
    omega
  aliased := by simp

end Passes

/-- The phrases of which a statement consists, definitions apart. -/
def InStatement : Phrase → Prop
  | names separator suits => separator ≠ .arrow ∧ ∀ kind, suits kind = true → kind.isName = true
  | definition | statement | lines => False
  | _ => True

theorem isPlain_of_isName {kind : TokenKind} (h : kind.isName = true) : kind.isPlain = true :=
  isPlain_of_suits h rfl rfl

/-- **The body of a statement makes the aliases that it passes.** -/
theorem Derives.passes {phrase : Phrase} {n : ℕ} {s r : TokenStream} {slots : List Child}
    (h : phrase.Derives n s r slots) (hphrase : phrase.InStatement) : Passes s r (made slots) := by
  induction h with
  | token ht => exact .token (isPlain_of_suits ht rfl rfl)
  | @range _ low dots high r hlow hdots hhigh =>
      have hupper := Passes.token (r := r) (isPlain_of_suits hhigh rfl rfl)
      exact (hupper.front (isPlain_of_eq hdots (by decide))).front (isPlain_of_suits hlow rfl rfl)
  | usage hname hopening _ hclosing ih =>
      rw [made_node rfl]
      have ih := (ih trivial).back (isPlain_of_eq hclosing (by decide))
      exact (ih.front (isPlain_of_eq hopening (by decide))).front (isPlain_of_suits hname rfl rfl)
  | lastArgument _ ih => exact ih trivial
  | argument _ hcomma _ ih ih' =>
      rw [made_cons]
      exact ((ih trivial).back (isPlain_of_eq hcomma (by decide))).trans (ih' trivial)
  | single _ ih => exact ih trivial
  | @parens _ _ _ _ _ body hopening hbody hclosing ih =>
      have hkind := kind_of_expansions hbody
      obtain ⟨kind, slots, span⟩ := body
      obtain rfl : kind = .expansions := hkind
      have ih := (ih trivial).back (isPlain_of_eq hclosing (by decide))
      rw [made_node rfl] at ih
      rw [Tree.withSpan, made_node rfl]
      exact ih.front (isPlain_of_eq hopening (by decide))
  | brackets hopening _ hclosing ih =>
      rw [made_node rfl]
      have ih := (ih trivial).back (isPlain_of_eq hclosing (by decide))
      exact ih.front (isPlain_of_eq hopening (by decide))
  | plain _ ih => exact ih trivial
  | operated _ hoperator ih =>
      rw [made_node rfl, made_cons, Child.made_token, Child.made_nil, List.append_nil]
      exact (ih trivial).back (isPlain_of_suits hoperator rfl rfl)
  | counted _ htilde hcount ih =>
      rw [countNode, made_node rfl, made_cons, Child.made_token, Child.made_absent, Child.made_nil,
        List.append_nil]
      have ih := (ih trivial).back (isPlain_of_eq htilde (by decide))
      exact ih.back (isPlain_of_suits hcount rfl rfl)
  | countedUpTo _ htilde hcount hdots hupper ih =>
      rw [countNode, made_node rfl, made_cons, Child.made_token, Child.made_token, Child.made_nil,
        List.append_nil]
      have ih := (ih trivial).back (isPlain_of_eq htilde (by decide))
      have ih := ih.back (isPlain_of_suits hcount rfl rfl)
      exact (ih.back (isPlain_of_eq hdots (by decide))).back (isPlain_of_suits hupper rfl rfl)
  | noItem => exact .refl _
  | items _ _ ih ih' =>
      rw [made_cons]
      exact (ih trivial).trans (ih' trivial)
  | unnamed _ ih =>
      rw [unnamedNode, Child.made_unnamed, itemsNode, made_node rfl]
      exact ih trivial
  | named _ harrow htarget ih =>
      obtain ⟨name, hname⟩ := TokenKind.exists_rule_of_isRule htarget
      rw [namedNode, Child.made_named hname, itemsNode, made_node rfl]
      exact ((ih trivial).trans (.arrow harrow hname)).comm
  | lastAlternative _ ih => exact ih trivial
  | alternative _ hpipe _ ih ih' =>
      rw [made_cons]
      exact ((ih trivial).back (isPlain_of_eq hpipe (by decide))).trans (ih' trivial)
  | expansions _ ih =>
      rw [Child.made_expansionsNode]
      exact ih trivial
  | lastName ht => exact .token (isPlain_of_isName (hphrase.2 _ ht))
  | name ht hsign _ ih =>
      have ih := (ih hphrase).front (isPlain_of_eq hsign hphrase.1)
      exact ih.front (isPlain_of_isName (hphrase.2 _ ht))
  | noParams => exact .refl _
  | params hopening _ hclosing ih =>
      rw [made_node rfl]
      have ih := (ih ⟨by decide, fun kind hkind => by simp [TokenKind.isName, hkind]⟩).back
        (isPlain_of_eq hclosing (by decide))
      exact ih.front (isPlain_of_eq hopening (by decide))
  | noPriority => exact .refl _
  | priority hdot hnumber =>
      exact (Passes.token (isPlain_of_suits hnumber rfl rfl)).front
        (isPlain_of_eq hdot (by decide))
  | path _ ih =>
      rw [pathNode, made_node rfl]
      exact ih ⟨by decide, fun _ hkind => hkind⟩
  | relativePath hdot _ ih =>
      rw [pathNode, made_node rfl]
      have ih := ih ⟨by decide, fun _ hkind => hkind⟩
      exact ih.front (isPlain_of_eq hdot (by decide))
  | lastDeclared ht => exact .token (isPlain_of_isName ht)
  | declared ht _ ih => exact (ih trivial).front (isPlain_of_isName ht)
  | _ => exact hphrase.elim

/-! ### Statements -/

/-- A definition makes the name that it begins with, if that is the name of a rule, and then its
aliases. -/
theorem Derives.exists_aliases {n : ℕ} {s r : TokenStream} {slot : Child}
    (h : Derives .definition n s r [slot]) :
    ∃ aliases, Passes s r aliases ∧
      made [slot] = (s.current.kind.ruleName?.map fun name => ⟨name, .rule⟩).toList ++ aliases := by
  cases h with
  | @rule _ name colon s₁ s₂ s₃ _ params priority body hname hparams hpriority hcolon hbody =>
      obtain ⟨text, htext⟩ := TokenKind.exists_rule_of_isRule hname
      have hpriority := (hpriority.passes trivial).back (isPlain_of_eq hcolon (by decide))
      have hslots := (hparams.passes trivial).trans (hpriority.trans (hbody.passes trivial))
      rw [← made_cons, ← made_cons] at hslots
      refine ⟨_, hslots.front (isPlain_of_suits hname rfl rfl), ?_⟩
      rw [Child.made_rule htext, TokenStream.current_cons, htext]
      rfl
  | @term _ name colon s₁ s₂ _ priority body hname hpriority hcolon hbody =>
      have hpriority := (hpriority.passes trivial).back (isPlain_of_eq hcolon (by decide))
      have hslots := hpriority.trans (hbody.passes trivial)
      rw [← made_cons] at hslots
      refine ⟨_, hslots.front (isPlain_of_suits hname rfl rfl), ?_⟩
      rw [made_node rfl, Child.made_token, TokenStream.current_cons]
      cases hkind : name.kind with
      | rule text => simp [hkind, TokenKind.isTerminal] at hname
      | _ => rfl

open TokenKind (Defines Aliases Reads defines_append splitOn_newline splitOn_of_notMem)

theorem endsStatement_of_head? {r : TokenStream} (hr : r.current.kind.endsStatement = true) :
    ∀ kind ∈ r.kinds.head?, kind.endsStatement = true := by
  intro kind hkind
  obtain rfl : r.current.kind = kind := by simpa [TokenStream.kinds, TokenStream.toList] using hkind
  exact hr

/-- Up to the end of a statement, the names behind arrows are the aliases. -/
theorem Passes.mem_targets_iff {s r : TokenStream} {aliases : List Declaration}
    {taken : List TokenKind} (h : Passes s r aliases) (hr : r.current.kind.endsStatement = true)
    (htaken : s.kinds = taken ++ r.kinds) (name : String) :
    name ∈ targets taken ↔ ⟨name, .aliased⟩ ∈ aliases := by
  have hcount := h.count name
  rw [htaken, TokenKind.targets_append, List.count_append, Nat.add_right_cancel_iff] at hcount
  · rw [← List.count_pos_iff, hcount, List.count_pos_iff, List.mem_map]
    constructor
    · rintro ⟨⟨spelling, kind⟩, hevent, rfl⟩
      obtain rfl : kind = .aliased := h.aliased _ hevent
      exact hevent
    · intro hevent
      exact ⟨_, hevent, rfl⟩
  · intro text hrule
    have hends := endsStatement_of_head? hr _ hrule
    contradiction

/-- What is passed up to the end of a statement is what the statement says, behind the name that it
defines. -/
theorem Passes.reads {s r : TokenStream} {aliases : List Declaration} (h : Passes s r aliases)
    (hr : r.current.kind.endsStatement = true) (defined : Option String)
    (hdefined : ∀ name, Defines name s.kinds ↔ defined = some name)
    (himport : ¬[.directive Directive.importing.name] <+: s.kinds) :
    ∃ taken, s.kinds = taken ++ r.kinds ∧ .newline ∉ taken ∧
      Reads taken ((defined.map fun name => ⟨name, .rule⟩).toList ++ aliases) := by
  obtain ⟨taken, htaken, hnot⟩ := h.unbroken
  have hrule : ∀ name, (⟨name, .rule⟩ : Declaration) ∉ aliases := by
    intro name hmem
    simpa using h.aliased _ hmem
  refine ⟨taken, htaken, hnot, ?_, ?_, ?_⟩
  · intro name
    rw [← defines_append (endsStatement_of_head? hr), ← htaken, hdefined]
    cases defined with
    | none => simp [hrule]
    | some text => simp [hrule, eq_comm]
  · intro name
    have himport : ¬[.directive Directive.importing.name] <+: taken := by
      intro hprefix
      exact himport (htaken ▸ hprefix.trans (List.prefix_append _ _))
    rw [Aliases, ← TokenKind.mem_targets, h.mem_targets_iff hr htaken]
    cases defined with
    | none => simp [himport]
    | some text => simp [himport]
  · intro name hmem
    cases defined with
    | none => simp [hrule] at hmem
    | some text =>
        obtain rfl : name = text := by simpa [hrule] using hmem
        rfl

/-- An import says nothing. -/
theorem reads_import {s r : TokenStream} {directive : Token}
    (hdirective : directive.kind.isDirective .importing = true)
    (h : ∃ taken, s.kinds = taken ++ r.kinds ∧ .newline ∉ taken) :
    ∃ taken, (s.cons directive).kinds = taken ++ r.kinds ∧ .newline ∉ taken ∧ Reads taken [] := by
  obtain ⟨taken, htaken, hnot⟩ := h
  have hkind : directive.kind = .directive Directive.importing.name := by
    simpa [TokenKind.isDirective] using hdirective
  refine ⟨directive.kind :: taken, by rw [TokenStream.kinds_cons, htaken]; rfl, ?_, ?_, ?_, ?_⟩
  · simp [hkind, hnot]
  · intro name
    simp [hkind, Defines, List.cons_prefix_cons, Directive.name]
  · intro name
    simp [hkind, Aliases, List.cons_prefix_cons]
  · simp

theorem made_of_path {n : ℕ} {s r : TokenStream} {slots : List Child}
    (h : Derives .path n s r slots) : made slots = [] := by
  cases h with
  | path _ => rw [pathNode, made_node rfl, Child.made_tokens]
  | relativePath _ _ => rw [pathNode, made_node rfl, Child.made_tokens]

/-- Behind a directive that leads a definition, the definition says what it says alone. -/
theorem reads_redefinition {n : ℕ} {s r : TokenStream} {directive : Token} {which : Directive}
    {body : Tree} (hdirective : directive.kind.isDirective which = true)
    (hwhich : which ∈ [Directive.override, Directive.extend])
    (hbody : Derives .definition n s r [.tree body])
    (hr : r.current.kind.endsStatement = true) :
    ∃ taken, (s.cons directive).kinds = taken ++ r.kinds ∧ .newline ∉ taken ∧
      Reads taken (made [.tree body]) := by
  obtain ⟨aliases, hpasses, hmade⟩ := hbody.exists_aliases
  have hkind : directive.kind = .directive which.name := by
    simpa [TokenKind.isDirective] using hdirective
  rw [hmade]
  refine (hpasses.front (isPlain_of_suits hdirective rfl rfl)).reads hr _ ?_ ?_
  · intro name
    rw [TokenStream.kinds_cons, hkind]
    exact TokenKind.defines_redefinition hwhich
  · rw [TokenStream.kinds_cons, hkind, TokenKind.singleton_prefix_cons]
    rintro heq
    simp only [List.mem_cons, List.not_mem_nil, or_false] at hwhich
    rcases hwhich with rfl | rfl <;> exact absurd heq (by decide)

/-- **A statement makes what its tokens say.** -/
theorem Derives.reads {n : ℕ} {s r : TokenStream} {slot : Child}
    (h : Derives .statement n s r [slot]) (hr : r.current.kind.endsStatement = true) :
    ∃ taken, s.kinds = taken ++ r.kinds ∧ .newline ∉ taken ∧ Reads taken (made [slot]) := by
  cases h with
  | defines h =>
      obtain ⟨aliases, hpasses, hmade⟩ := h.exists_aliases
      have hname := Parse.isName_of_definition h
      rw [hmade]
      refine hpasses.reads hr _ (fun name => TokenKind.defines_of_isName hname) ?_
      rw [TokenStream.kinds_eq, TokenKind.singleton_prefix_cons]
      intro heq
      rw [← heq] at hname
      contradiction
  | @ignore _ directive s _ body hdirective hbody =>
      have hkind : directive.kind = .directive Directive.ignore.name := by
        simpa [TokenKind.isDirective] using hdirective
      have hpasses := (hbody.passes trivial).front (t := directive)
        (isPlain_of_suits hdirective rfl rfl)
      rw [made_node rfl]
      refine hpasses.reads hr none ?_ ?_
      · intro name
        simp [hkind, Defines, List.cons_prefix_cons, Directive.name]
      · simp [hkind, List.cons_prefix_cons, Directive.name]
  | importPath hdirective hpath =>
      rw [made_node rfl, made_cons, made_of_path hpath]
      exact reads_import hdirective (hpath.passes trivial).unbroken
  | @importAs _ directive arrow target s _ path hdirective hpath harrow htarget =>
      rw [made_node rfl, made_cons, made_of_path hpath]
      obtain ⟨taken, htaken, hnot⟩ := (hpath.passes trivial).unbroken
      refine reads_import hdirective ⟨taken ++ [arrow.kind, target.kind], by simpa using htaken, ?_⟩
      have hne := (ne_of_isPlain (isPlain_of_isName htarget)).2
      simp [hnot, harrow, hne.symm]
  | importNames hdirective hpath hopening hnames hclosing =>
      obtain ⟨names, rfl⟩ := hnames.exists_tokens
      rw [made_node rfl, made_cons, made_of_path hpath, Child.made_tokens]
      have hpath := (hpath.passes trivial).back (isPlain_of_eq hopening (by decide))
      have hnames := hnames.passes ⟨by decide, fun _ hkind => hkind⟩
      exact reads_import hdirective
        (hpath.trans (hnames.back (isPlain_of_eq hclosing (by decide)))).unbroken
  | @declare _ directive _ _ _ _ hdirective hnames =>
      have hkind : directive.kind = .directive Directive.declare.name := by
        simpa [TokenKind.isDirective] using hdirective
      have hpasses := (hnames.passes trivial).front (t := directive)
        (isPlain_of_suits hdirective rfl rfl)
      rw [made_node rfl]
      refine hpasses.reads hr none ?_ ?_
      · intro name
        simp [hkind, Defines, List.cons_prefix_cons, Directive.name]
      · simp [hkind, List.cons_prefix_cons, Directive.name]
  | override hdirective hbody =>
      rw [made_node rfl]
      exact reads_redefinition hdirective (by simp) hbody hr
  | extend hdirective hbody =>
      rw [made_node rfl]
      exact reads_redefinition hdirective (by simp) hbody hr

/-- **A text is its statements, one after the other**: what holds of a line without a statement and
of every statement by itself holds of all lines of a text. -/
theorem Derives.forall₂_lines {n : ℕ} {s r : TokenStream} {slots : List Child}
    {motive : List TokenKind → List Child → Prop} (blank : motive [] [])
    (statement : ∀ {s r : TokenStream} {slot : Child}, Derives .statement n s r [slot] →
      r.current.kind.endsStatement = true →
        ∃ taken, s.kinds = taken ++ r.kinds ∧ .newline ∉ taken ∧ motive taken [slot])
    (append_end : ∀ {kinds : List TokenKind} {piece : List Child}, motive kinds piece →
      motive (kinds ++ [.endOfInput]) piece)
    (h : Derives .lines n s r slots) (hs : s.Terminated) (hr : r.current.kind = .endOfInput) :
    ∃ pieces, List.Forall₂ motive (s.kinds.splitOn .newline) pieces ∧ slots = pieces.flatten := by
  generalize hphrase : Phrase.lines = phrase at h
  -- behind the lines stands the end of the text alone
  have hend {r : TokenStream} (hs : r.Terminated) (hr : r.current.kind = .endOfInput) :
      r.kinds = [.endOfInput] := by
    rw [TokenStream.kinds_eq, hs.current_iff.1 hr, hr]
    rfl
  induction h with
  | noLine =>
      rw [hend hs hr, splitOn_of_notMem (by simp)]
      exact ⟨[[]], .cons (append_end blank) .nil, rfl⟩
  | @blankLine _ newline s _ _ hnewline _ ih =>
      obtain ⟨pieces, hpieces, hslots⟩ := ih statement hs.of_cons hr hphrase
      have hsplit := splitOn_newline List.not_mem_nil s.kinds
      rw [List.nil_append] at hsplit
      rw [TokenStream.kinds_cons, hnewline]
      exact ⟨[] :: pieces, hsplit ▸ .cons blank hpieces, hslots⟩
  | line hstatement hnewline _ _ ih =>
      have hm := (hs.of_suffix hstatement.suffix).of_cons
      obtain ⟨pieces, hpieces, hslots⟩ := ih statement hm hr hphrase
      obtain ⟨taken, htaken, hnot, hmotive⟩ :=
        statement hstatement (by simp [hnewline, TokenKind.endsStatement])
      rw [htaken, TokenStream.kinds_cons, hnewline, splitOn_newline hnot]
      exact ⟨_ :: pieces, .cons hmotive hpieces, by rw [hslots, List.flatten_cons]; rfl⟩
  | lastLine hstatement =>
      obtain ⟨taken, htaken, hnot, hmotive⟩ :=
        statement hstatement (by simp [hr, TokenKind.endsStatement])
      rw [htaken, hend (hs.of_suffix hstatement.suffix) hr, splitOn_of_notMem (by simp [hnot])]
      exact ⟨[_], .cons (append_end hmotive) .nil, by simp⟩
  | _ => cases hphrase

/-- **The statements of a text make what their tokens say**, one after the other. -/
theorem Derives.readsAll {n : ℕ} {s r : TokenStream} {slots : List Child}
    (h : Derives .lines n s r slots) (hs : s.Terminated) (hr : r.current.kind = .endOfInput) :
    ∃ events, List.Forall₂ Reads (s.kinds.splitOn .newline) events ∧
      made slots = events.flatten := by
  obtain ⟨pieces, hreads, rfl⟩ :=
    Derives.forall₂_lines (motive := fun kinds piece => Reads kinds (made piece))
      TokenKind.reads_nil (fun h hr => h.reads hr) (fun h => h.append_end) h hs hr
  exact ⟨pieces.map made, List.forall₂_map_right_iff.2 hreads, Child.made_flatten pieces⟩

end Phrase

end GrammarCatalog
