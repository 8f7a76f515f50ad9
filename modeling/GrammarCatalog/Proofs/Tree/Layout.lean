/-
**The layout of nodes.**

The kind of a node says how many slots it has and what stands in them: which tokens, which nodes,
and where a slot may be empty.  What reads a tree, reads it by the places of its slots, and the
layout is what it may count on.

Main definitions:

* `GrammarCatalog.Child.Everywhere` — a property of all nodes in a list of slots;
* `GrammarCatalog.Layout` — the slots that a kind of node has;
* `GrammarCatalog.NodeKind.held` — the kinds of nodes that stand in the slots of a kind of node;
* `GrammarCatalog.Phrase.admits` — what stands in the slots that a phrase makes.

Main results:

* `GrammarCatalog.Layout.kind_mem_held` — a layout tells the kinds of the nodes in its slots;
* `GrammarCatalog.Phrase.Derives.admits_of_mem` — a phrase makes only slots it admits;
* `GrammarCatalog.Phrase.Derives.laidOut` — all nodes that a phrase makes are laid out;
* `GrammarCatalog.Tree.layout_of_mem_preorder` — **every node of the tree of a text has the layout
  of its kind**.
-/

import Mathlib
import GrammarCatalog.Proofs.MetaGrammar.Acceptance

set_option relaxedAutoImplicit false
set_option autoImplicit false

namespace GrammarCatalog

namespace Child

/-! ### All nodes in a list of slots -/

/-- A property of all nodes in a list of slots. -/
def Everywhere (P : Tree → Prop) (slots : List Child) : Prop := ∀ node ∈ preorderAll slots, P node

variable {P : Tree → Prop} {slot : Child} {slots : List Child}

theorem everywhere_cons :
    Everywhere P (slot :: slots) ↔ Everywhere P [slot] ∧ Everywhere P slots := by
  cases slot <;> simp [Everywhere, preorderAll, or_imp, forall_and]

theorem everywhere_node {kind : NodeKind} {span : Span} :
    Everywhere P [.tree (.node kind slots span)] ↔ P (.node kind slots span) ∧
      Everywhere P slots := by
  simp [Everywhere, preorderAll, Tree.preorder]

@[simp] theorem everywhere_nil : Everywhere P [] := by simp [Everywhere, preorderAll]

@[simp] theorem everywhere_token_cons (leaf : Token) :
    Everywhere P (.token leaf :: slots) ↔ Everywhere P slots := Iff.rfl

@[simp] theorem everywhere_absent_cons : Everywhere P (.absent :: slots) ↔ Everywhere P slots :=
  Iff.rfl

theorem Everywhere.cons (h : Everywhere P [slot]) (hslots : Everywhere P slots) :
    Everywhere P (slot :: slots) := everywhere_cons.2 ⟨h, hslots⟩

theorem Everywhere.of_mem (h : Everywhere P slots) (hslot : slot ∈ slots) :
    Everywhere P [slot] := by
  induction slots with
  | nil => contradiction
  | cons other slots ih =>
      obtain ⟨hother, hslots⟩ := everywhere_cons.1 h
      rcases List.mem_cons.1 hslot with rfl | hslot
      · exact hother
      · exact ih hslots hslot

/-- **Induction on lists of slots**: a node in front has slots of its own. -/
theorem slots_induction {motive : List Child → Prop} (nil : motive [])
    (tree : ∀ kind children span slots, motive children → motive slots →
      motive (.tree (.node kind children span) :: slots))
    (token : ∀ leaf slots, motive slots → motive (.token leaf :: slots))
    (absent : ∀ slots, motive slots → motive (.absent :: slots)) : ∀ slots, motive slots
  | [] => nil
  | .tree (.node kind children span) :: slots =>
      tree kind children span slots (slots_induction nil tree token absent children)
        (slots_induction nil tree token absent slots)
  | .token leaf :: slots => token leaf slots (slots_induction nil tree token absent slots)
  | .absent :: slots => absent slots (slots_induction nil tree token absent slots)

/-- A property that nodes hand down to the nodes in their slots. -/
theorem Everywhere.inherit {Q : Tree → Prop} (h : Everywhere P slots)
    (hdown : ∀ node, P node → Q node → ∀ child, .tree child ∈ node.children → Q child)
    (hslots : ∀ node, .tree node ∈ slots → Q node) : Everywhere Q slots := by
  induction slots using slots_induction with
  | nil => exact everywhere_nil
  | tree kind children span slots ih ih' =>
      obtain ⟨hnode, hothers⟩ := everywhere_cons.1 h
      obtain ⟨hnode, hchildren⟩ := everywhere_node.1 hnode
      have hQ : Q (.node kind children span) := hslots _ List.mem_cons_self
      have hdeep := everywhere_node.2 ⟨hQ, ih hchildren (hdown _ hnode hQ)⟩
      exact hdeep.cons (ih' hothers fun node hmem => hslots node (List.mem_cons_of_mem _ hmem))
  | token leaf slots ih =>
      exact ih h fun node hmem => hslots node (List.mem_cons_of_mem _ hmem)
  | absent slots ih =>
      exact ih h fun node hmem => hslots node (List.mem_cons_of_mem _ hmem)

/-! ### What stands in a slot -/

/-- A slot with a token of a class. -/
def isToken (suits : TokenKind → Bool) : Child → Bool
  | token leaf => suits leaf.kind
  | _ => false

/-- A slot with a node of a kind. -/
def isNode (kind : NodeKind) : Child → Bool
  | tree node => node.kind == kind
  | _ => false

/-- An empty slot, or one of a class. -/
def isOptional (suits : Child → Bool) : Child → Bool
  | absent => true
  | slot => suits slot

/-- A literal, a name, a range, or a name with arguments. -/
def isValue (slot : Child) : Bool :=
  slot.isToken TokenKind.isValue || slot.isNode .range || slot.isNode .templateUsage

/-- A value, or alternatives in parentheses or brackets. -/
def isAtom (slot : Child) : Bool :=
  slot.isValue || slot.isNode .expansions || slot.isNode .maybe

/-- An atom, or an atom with its operator. -/
def isItem (slot : Child) : Bool := slot.isAtom || slot.isNode .expr

/-- A rule or a terminal. -/
def isDefinition (slot : Child) : Bool := slot.isNode .rule || slot.isNode .term

/-- A definition or a directive. -/
def isStatement (slot : Child) : Bool :=
  slot.isDefinition || slot.isNode .ignore || slot.isNode .importing || slot.isNode .multiImport ||
    slot.isNode .declare || slot.isNode .override || slot.isNode .extend

end Child

/-! ### Layouts -/

/-- The slots that a kind of node has. -/
inductive Layout : NodeKind → List Child → Prop where
  | start {statements : List Child} (hstatements : ∀ slot ∈ statements, slot.isStatement = true) :
      Layout .start statements
  | rule {name params priority body : Child} (hname : name.isToken TokenKind.isRule = true)
      (hparams : params.isOptional (Child.isNode .templateParams) = true)
      (hpriority : priority.isOptional (Child.isToken TokenKind.isNumber) = true)
      (hbody : body.isNode .expansions = true) : Layout .rule [name, params, priority, body]
  | term {name priority body : Child} (hname : name.isToken TokenKind.isTerminal = true)
      (hpriority : priority.isOptional (Child.isToken TokenKind.isNumber) = true)
      (hbody : body.isNode .expansions = true) : Layout .term [name, priority, body]
  | templateParams {names : List Child} (hne : names ≠ [])
      (hnames : ∀ slot ∈ names, slot.isToken TokenKind.isRule = true) :
      Layout .templateParams names
  | expansions {alternatives : List Child} (hne : alternatives ≠ [])
      (halternatives : ∀ slot ∈ alternatives, slot.isNode .alternative = true) :
      Layout .expansions alternatives
  | alternative {items target : Child} (hitems : items.isNode .expansion = true)
      (htarget : target.isOptional (Child.isToken TokenKind.isRule) = true) :
      Layout .alternative [items, target]
  | expansion {items : List Child} (hitems : ∀ slot ∈ items, slot.isItem = true) :
      Layout .expansion items
  | operated {operand operator : Child} (hoperand : operand.isAtom = true)
      (hoperator : operator.isToken TokenKind.isOperator = true) :
      Layout .expr [operand, operator]
  | counted {operand count upper : Child} (hoperand : operand.isAtom = true)
      (hcount : count.isToken TokenKind.isNumber = true)
      (hupper : upper.isOptional (Child.isToken TokenKind.isNumber) = true) :
      Layout .expr [operand, count, upper]
  | maybe {body : Child} (hbody : body.isNode .expansions = true) : Layout .maybe [body]
  | range {low high : Child} (hlow : low.isToken TokenKind.isString = true)
      (hhigh : high.isToken TokenKind.isString = true) : Layout .range [low, high]
  | templateUsage {name : Child} {arguments : List Child}
      (hname : name.isToken TokenKind.isRule = true) (hne : arguments ≠ [])
      (harguments : ∀ slot ∈ arguments, slot.isValue = true) :
      Layout .templateUsage (name :: arguments)
  | ignore {body : Child} (hbody : body.isNode .expansions = true) : Layout .ignore [body]
  | importing {path target : Child} (hpath : path.isNode .importPath = true)
      (htarget : target.isOptional (Child.isToken TokenKind.isName) = true) :
      Layout .importing [path, target]
  | multiImport {path : Child} {names : List Child} (hpath : path.isNode .importPath = true)
      (hne : names ≠ []) (hnames : ∀ slot ∈ names, slot.isToken TokenKind.isName = true) :
      Layout .multiImport (path :: names)
  | path {names : List Child} (hne : names ≠ [])
      (hnames : ∀ slot ∈ names, slot.isToken TokenKind.isName = true) : Layout .importPath names
  | relativePath {dot : Child} {names : List Child}
      (hdot : dot.isToken (· == .punctuation .dot) = true) (hne : names ≠ [])
      (hnames : ∀ slot ∈ names, slot.isToken TokenKind.isName = true) :
      Layout .importPath (dot :: names)
  | declare {names : List Child} (hne : names ≠ [])
      (hnames : ∀ slot ∈ names, slot.isToken TokenKind.isName = true) : Layout .declare names
  | override {definition : Child} (hdefinition : definition.isDefinition = true) :
      Layout .override [definition]
  | extend {definition : Child} (hdefinition : definition.isDefinition = true) :
      Layout .extend [definition]

/-- A node with the layout of its kind. -/
def Tree.LaidOut (node : Tree) : Prop := Layout node.kind node.children

/-- The kinds of nodes that stand in the slots of a kind of node. -/
def NodeKind.held : NodeKind → List NodeKind
  | start => [rule, term, ignore, importing, multiImport, declare, override, extend]
  | rule => [templateParams, expansions]
  | term | maybe | ignore => [expansions]
  | expansions => [alternative]
  | alternative => [expansion]
  | expansion => [range, templateUsage, expansions, maybe, expr]
  | expr => [range, templateUsage, expansions, maybe]
  | templateUsage => [range, templateUsage]
  | importing | multiImport => [importPath]
  | override | extend => [rule, term]
  | templateParams | range | importPath | declare => []

/-- The layout of a node tells the kinds of the nodes in its slots. -/
theorem Layout.kind_mem_held {kind : NodeKind} {slots : List Child} {node : Tree}
    (h : Layout kind slots) (hnode : .tree node ∈ slots) : node.kind ∈ kind.held := by
  have hkind {other : NodeKind} (h : (Child.tree node).isNode other = true) :
      node.kind = other := by
    simpa [Child.isNode] using h
  have hatom (h : (Child.tree node).isAtom = true) : node.kind ∈ NodeKind.expr.held := by
    simpa [Child.isAtom, Child.isValue, Child.isToken, Child.isNode, NodeKind.held, or_assoc]
      using h
  -- a slot with a node is none of a token, and the class of the slot tells the kind of the node
  cases h with
  | start hslots =>
      simpa [Child.isStatement, Child.isDefinition, Child.isNode, NodeKind.held, or_assoc]
        using hslots _ hnode
  | rule hname hparams hpriority hbody =>
      simp only [List.mem_cons, List.not_mem_nil, or_false] at hnode
      rcases hnode with rfl | rfl | rfl | rfl
      · contradiction
      · simp [NodeKind.held, hkind hparams]
      · contradiction
      · simp [NodeKind.held, hkind hbody]
  | term hname hpriority hbody =>
      simp only [List.mem_cons, List.not_mem_nil, or_false] at hnode
      rcases hnode with rfl | rfl | rfl
      · contradiction
      · contradiction
      · simp [NodeKind.held, hkind hbody]
  | templateParams _ hslots | path _ hslots | declare _ hslots =>
      exact absurd (hslots _ hnode) Bool.false_ne_true
  | expansions _ hslots => simp [NodeKind.held, hkind (hslots _ hnode)]
  | alternative hitems htarget =>
      simp only [List.mem_cons, List.not_mem_nil, or_false] at hnode
      rcases hnode with rfl | rfl
      · simp [NodeKind.held, hkind hitems]
      · contradiction
  | expansion hslots =>
      simpa [Child.isItem, Child.isAtom, Child.isValue, Child.isToken, Child.isNode,
        NodeKind.held, or_assoc] using hslots _ hnode
  | operated hoperand hoperator =>
      simp only [List.mem_cons, List.not_mem_nil, or_false] at hnode
      rcases hnode with rfl | rfl
      · exact hatom hoperand
      · contradiction
  | counted hoperand hcount hupper =>
      simp only [List.mem_cons, List.not_mem_nil, or_false] at hnode
      rcases hnode with rfl | rfl | rfl
      · exact hatom hoperand
      · contradiction
      · contradiction
  | maybe hbody | ignore hbody =>
      obtain rfl := List.mem_singleton.1 hnode
      simp [NodeKind.held, hkind hbody]
  | range hlow hhigh =>
      simp only [List.mem_cons, List.not_mem_nil, or_false] at hnode
      rcases hnode with rfl | rfl
      · contradiction
      · contradiction
  | templateUsage hname _ hslots =>
      rcases List.mem_cons.1 hnode with rfl | hnode
      · contradiction
      · simpa [Child.isValue, Child.isToken, Child.isNode, NodeKind.held] using hslots _ hnode
  | importing hpath htarget =>
      simp only [List.mem_cons, List.not_mem_nil, or_false] at hnode
      rcases hnode with rfl | rfl
      · simp [NodeKind.held, hkind hpath]
      · contradiction
  | multiImport hpath _ hslots =>
      rcases List.mem_cons.1 hnode with rfl | hnode
      · simp [NodeKind.held, hkind hpath]
      · exact absurd (hslots _ hnode) Bool.false_ne_true
  | relativePath hdot _ hslots =>
      rcases List.mem_cons.1 hnode with rfl | hnode
      · contradiction
      · exact absurd (hslots _ hnode) Bool.false_ne_true
  | override hbody | extend hbody =>
      obtain rfl := List.mem_singleton.1 hnode
      simpa [Child.isDefinition, Child.isNode, NodeKind.held] using hbody

namespace Phrase

/-! ### The slots of phrases -/

/-- What stands in the slots that a phrase makes. -/
def admits : Phrase → Child → Bool
  | value, slot | arguments, slot => slot.isValue
  | atom, slot => slot.isAtom
  | item, slot | items, slot => slot.isItem
  | alternative _, slot | alternatives _, slot => slot.isNode .alternative
  | expansions _, slot => slot.isNode .expansions
  | names _ suits, slot => slot.isToken suits
  | params, slot => slot.isOptional (Child.isNode .templateParams)
  | priority, slot => slot.isOptional (Child.isToken TokenKind.isNumber)
  | definition, slot => slot.isDefinition
  | path, slot => slot.isNode .importPath
  | declared, slot => slot.isToken TokenKind.isName
  | statement, slot | lines, slot => slot.isStatement

/-- A phrase that may make no slot at all. -/
def mayBeEmpty : Phrase → Bool
  | items | lines => true
  | _ => false

namespace Derives

variable {phrase : Phrase} {n : ℕ} {s r : TokenStream} {slot : Child} {slots : List Child}

theorem ne_nil (h : phrase.Derives n s r slots) (hphrase : phrase.mayBeEmpty = false) :
    slots ≠ [] := by
  induction h with
  | noItem | noLine | blankLine _ _ _ => contradiction
  | _ => simp

/-- A phrase makes only slots that it admits. -/
theorem admits_of_mem (h : phrase.Derives n s r slots) :
    ∀ slot ∈ slots, phrase.admits slot = true := by
  induction h with
  | token ht => simp [admits, Child.isValue, Child.isToken, ht]
  | lastArgument _ ih | lastAlternative _ ih | blankLine _ _ ih | lastLine _ ih => exact ih
  | argument _ _ _ ih ih' | items _ _ ih ih' | alternative _ _ _ ih ih' | line _ _ _ ih ih' =>
      exact List.forall_mem_cons.2 ⟨ih _ List.mem_cons_self, ih'⟩
  | single _ ih =>
      have hvalue := List.forall_mem_singleton.1 ih
      simp_all [admits, Child.isAtom]
  | @parens _ _ _ _ _ body _ _ _ ih =>
      have hbody := List.forall_mem_singleton.1 ih
      obtain ⟨kind, slots, span⟩ := body
      simp_all [admits, Child.isAtom, Child.isNode, Tree.withSpan]
  | plain _ ih =>
      have hatom := List.forall_mem_singleton.1 ih
      simp_all [admits, Child.isItem]
  | noItem | noLine => exact List.forall_mem_nil _
  | lastName ht | lastDeclared ht => exact List.forall_mem_singleton.2 ht
  | name ht _ _ ih | declared ht _ ih => exact List.forall_mem_cons.2 ⟨ht, ih⟩
  | priority _ hnumber => exact List.forall_mem_singleton.2 hnumber
  | defines _ ih =>
      have hdefinition := List.forall_mem_singleton.1 ih
      simp_all [admits, Child.isStatement]
  -- What is left makes one slot, with a node of a kind that the phrase admits, or with nothing.
  | _ => exact List.forall_mem_singleton.2 rfl

/-- The slot of a phrase that makes one is admitted. -/
theorem admits (h : phrase.Derives n s r [slot]) : phrase.admits slot = true :=
  h.admits_of_mem slot (List.mem_singleton.2 rfl)

/-! ### The layouts of nodes -/

theorem laidOut_items {start : Span} (h : Derives .items n s r slots)
    (hslots : Child.Everywhere Tree.LaidOut slots) :
    Child.Everywhere Tree.LaidOut [.tree (itemsNode start slots)] :=
  Child.everywhere_node.2 ⟨.expansion h.admits_of_mem, hslots⟩

/-- All nodes that a phrase makes are laid out. -/
theorem laidOut (h : phrase.Derives n s r slots) : Child.Everywhere Tree.LaidOut slots := by
  induction h with
  | token _ => simp
  | range hlow _ hhigh => exact Child.everywhere_node.2 ⟨.range hlow hhigh, by simp⟩
  | usage hname _ harguments _ ih =>
      exact Child.everywhere_node.2
        ⟨.templateUsage hname (harguments.ne_nil rfl) harguments.admits_of_mem, ih⟩
  | @parens _ _ _ _ _ body _ _ _ ih =>
      obtain ⟨kind, slots, span⟩ := body
      have hbody := Child.everywhere_node.1 ih
      exact Child.everywhere_node.2 hbody
  | brackets _ hbody _ ih => exact Child.everywhere_node.2 ⟨.maybe hbody.admits, ih⟩
  | operated h hoperator ih =>
      exact Child.everywhere_node.2 ⟨.operated h.admits hoperator, ih.cons (by simp)⟩
  | counted h _ hcount ih =>
      exact Child.everywhere_node.2 ⟨.counted h.admits hcount rfl, ih.cons (by simp)⟩
  | countedUpTo h _ hcount _ hupper ih =>
      exact Child.everywhere_node.2 ⟨.counted h.admits hcount hupper, ih.cons (by simp)⟩
  | unnamed h ih =>
      exact Child.everywhere_node.2 ⟨.alternative rfl rfl, (laidOut_items h ih).cons (by simp)⟩
  | named h _ htarget ih =>
      exact Child.everywhere_node.2
        ⟨.alternative rfl htarget, (laidOut_items h ih).cons (by simp)⟩
  | expansions h ih =>
      exact Child.everywhere_node.2
        ⟨.expansions (h.ne_nil rfl) h.admits_of_mem, ih⟩
  | params _ hnames _ ih =>
      exact Child.everywhere_node.2
        ⟨.templateParams (hnames.ne_nil rfl) hnames.admits_of_mem, ih⟩
  | rule hname hparams hpriority _ hbody ihparams ihpriority ihbody =>
      exact Child.everywhere_node.2
        ⟨.rule hname hparams.admits hpriority.admits hbody.admits,
          ihparams.cons (ihpriority.cons ihbody)⟩
  | term hname hpriority _ hbody ihpriority ihbody =>
      exact Child.everywhere_node.2
        ⟨.term hname hpriority.admits hbody.admits, ihpriority.cons ihbody⟩
  | path h ih =>
      exact Child.everywhere_node.2 ⟨.path (h.ne_nil rfl) h.admits_of_mem, ih⟩
  | relativePath hdot h ih =>
      exact Child.everywhere_node.2
        ⟨.relativePath (by simp [Child.isToken, hdot]) (h.ne_nil rfl) h.admits_of_mem,
          ih⟩
  | ignore _ hbody ih => exact Child.everywhere_node.2 ⟨.ignore hbody.admits, ih⟩
  | importPath _ hpath ih =>
      exact Child.everywhere_node.2 ⟨.importing hpath.admits rfl, ih.cons (by simp)⟩
  | importAs _ hpath _ htarget ih =>
      exact Child.everywhere_node.2 ⟨.importing hpath.admits htarget, ih.cons (by simp)⟩
  | importNames _ hpath _ hnames _ ihpath ihnames =>
      exact Child.everywhere_node.2
        ⟨.multiImport hpath.admits (hnames.ne_nil rfl) hnames.admits_of_mem,
          ihpath.cons ihnames⟩
  | declare _ hnames ih =>
      exact Child.everywhere_node.2 ⟨.declare (hnames.ne_nil rfl) hnames.admits_of_mem, ih⟩
  | override _ hbody ih => exact Child.everywhere_node.2 ⟨.override hbody.admits, ih⟩
  | extend _ hbody ih => exact Child.everywhere_node.2 ⟨.extend hbody.admits, ih⟩
  | argument _ _ _ ih ih' | items _ _ ih ih' | alternative _ _ _ ih ih' | line _ _ _ ih ih' =>
      exact ih.cons ih'
  | lastArgument _ ih | single _ ih | plain _ ih | lastAlternative _ ih | name _ _ _ ih
  | declared _ _ ih | defines _ ih | blankLine _ _ ih | lastLine _ ih => exact ih
  -- What is left makes no node.
  | _ => simp

end Derives

end Phrase

namespace Tree

variable {source : String} {tree node : Tree}

theorem laidOut_ofSource (h : ofSource source = .ok tree) :
    Child.Everywhere LaidOut [.tree tree] := by
  obtain ⟨trees, r, rfl, hderives, -⟩ := ofSource_eq_ok_iff.1 h
  exact Child.everywhere_node.2 ⟨.start hderives.admits_of_mem, hderives.laidOut⟩

/-- **Every node of the tree of a text has the layout of its kind**. -/
theorem layout_of_mem_preorder (h : ofSource source = .ok tree) (hnode : node ∈ tree.preorder) :
    Layout node.kind node.children :=
  laidOut_ofSource h node (by simpa [Child.preorderAll] using hnode)

/-- The path of a relative import is a dot and a name. -/
theorem layout_relativePath :
    ∃ tree node, ofSource "%import .a" = .ok tree ∧ node ∈ tree.preorder ∧
      node.kind = .importPath ∧
      node.children.map (·.token?.map Token.kind) = [some (.punctuation .dot), some (.rule "a")] ∧
      Layout node.kind node.children := by
  let path : Tree :=
    .node .importPath
      [.token ⟨.punctuation .dot, ⟨8, 9, 1, 9⟩⟩, .token ⟨.rule "a", ⟨9, 10, 1, 10⟩⟩] ⟨8, 10, 1, 9⟩
  have h : ofSource "%import .a" = .ok
      (.node .start [.tree (.node .importing [.tree path, .absent] ⟨0, 10, 1, 1⟩)]
        ⟨0, 10, 1, 1⟩) := by cbv
  refine ⟨_, path, h, ?inTree, rfl, rfl, layout_of_mem_preorder h ?inTree⟩
  exact .tail _ (.tail _ (.head _))

end Tree

end GrammarCatalog
