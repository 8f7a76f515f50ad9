/-
**The height of trees.**

However long a text is, its tree is low.  Only groups and arguments nest, and no more than
`Parse.maxNesting` of them may be open at once; one level of nesting adds at most five nodes to a
path: an item with its operator, brackets, alternatives, one alternative, and its items.  Eight more
nodes stand above and below all levels.

What goes down a tree by calling itself has as many calls open at once as there are nodes above, so
the height bounds its stack.

Main definitions:

* `GrammarCatalog.Tree.height` — the number of nodes on a longest path down;
* `GrammarCatalog.Tree.IsPath` — each node is in a slot of the one in front of it;
* `GrammarCatalog.Tree.fold`, `GrammarCatalog.Tree.foldWithin` — a value for each node from those of
  the nodes in its slots, without a limit and with one for the calls that are open at once;
* `GrammarCatalog.Phrase.maxHeight` — how high the nodes are that a phrase makes.

Main results:

* `GrammarCatalog.Tree.foldWithin_eq` — the calls that a recursion has open are the height;
* `GrammarCatalog.Phrase.Derives.height_le` — a phrase makes only nodes that are as low as it says;
* `GrammarCatalog.Tree.path_length_le_of_ofSource` — **the tree of a text has a fixed height**, and
  so has every recursion over it.
-/

import GrammarCatalog.Tree.Outline
import GrammarCatalog.Proofs.Tree.Layout

set_option relaxedAutoImplicit false
set_option autoImplicit false

namespace GrammarCatalog

/-! ### Height -/

mutual

/-- The number of nodes on a longest path down from a node. -/
def Tree.height : Tree → ℕ
  | .node _ children _ => Child.heightAll children + 1

/-- The number of nodes on a longest path down from one of the slots. -/
def Child.heightAll : List Child → ℕ
  | [] => 0
  | .tree node :: children => max node.height (Child.heightAll children)
  | .token _ :: children => Child.heightAll children
  | .absent :: children => Child.heightAll children

end

@[simp] theorem Tree.height_node (kind : NodeKind) (children : List Child) (span : Span) :
    (Tree.node kind children span).height = Child.heightAll children + 1 := by rw [height]

namespace Child

variable {limit : ℕ} {slots : List Child}

/-- The number of nodes on a longest path down from a slot. -/
def height : Child → ℕ
  | tree node => node.height
  | _ => 0

@[simp] theorem height_tree (node : Tree) : (tree node).height = node.height := rfl

@[simp] theorem height_token (leaf : Token) : (token leaf).height = 0 := rfl

@[simp] theorem height_absent : absent.height = 0 := rfl

@[simp] theorem heightAll_nil : heightAll [] = 0 := rfl

@[simp] theorem heightAll_cons (slot : Child) (slots : List Child) :
    heightAll (slot :: slots) = max slot.height (heightAll slots) := by
  cases slot <;> simp [heightAll]

theorem tree?_eq_some_iff {slot : Child} {node : Tree} :
    slot.tree? = some node ↔ slot = tree node := by
  cases slot <;> simp

theorem heightAll_le_iff :
    heightAll slots ≤ limit ↔ ∀ node, .tree node ∈ slots → node.height ≤ limit := by
  induction slots with
  | nil => simp
  | cons slot slots ih => cases slot <;> simp [ih]

theorem heightAll_tokens (tokens : List Token) : heightAll (tokens.map .token) = 0 := by
  induction tokens with
  | nil => rfl
  | cons leaf tokens ih => simpa using ih

/-- The lines of slots are indented by no more levels than the slots are high. -/
theorem depth_le_of_mem_outlineLines {showAbsent : Bool} {depth : ℕ} {line : Outline.Line}
    (h : line ∈ outlineLines showAbsent depth slots) : line.depth ≤ depth + heightAll slots := by
  induction slots using slots_induction generalizing depth with
  | nil => simp [outlineLines] at h
  | tree kind children span slots ih ih' =>
      simp only [outlineLines, Tree.outlineLines, List.cons_append, List.mem_cons,
        List.mem_append] at h
      simp only [heightAll_cons, height_tree, Tree.height_node]
      rcases h with rfl | hchild | hslot
      · exact Nat.le_add_right _ _
      · have := ih hchild
        omega
      · have := ih' hslot
        omega
  | token leaf slots ih =>
      rw [heightAll_cons, height_token, Nat.zero_max]
      rcases List.mem_cons.1 h with rfl | hslot
      · exact Nat.le_add_right _ _
      · exact ih hslot
  | absent slots ih =>
      rw [heightAll_cons, height_absent, Nat.zero_max]
      cases showAbsent with
      | false => exact ih h
      | true =>
          rcases List.mem_cons.1 h with rfl | hslot
          · exact Nat.le_add_right _ _
          · exact ih hslot

end Child

/-! ### What the height bounds -/

namespace Tree

variable {limit : ℕ} {tree : Tree}

/-- A node is one higher than the nodes in its slots. -/
theorem height_le_succ_iff :
    tree.height ≤ limit + 1 ↔ ∀ child, .tree child ∈ tree.children → child.height ≤ limit := by
  obtain ⟨kind, children, span⟩ := tree
  rw [height_node, Nat.add_le_add_iff_right, Child.heightAll_le_iff, children_node]

theorem height_pos (tree : Tree) : 0 < tree.height := by
  cases tree
  simp

@[simp] theorem height_withSpan (span : Span) (tree : Tree) :
    (tree.withSpan span).height = tree.height := by
  cases tree
  simp [withSpan]

theorem mem_subtrees {child : Tree} : child ∈ tree.subtrees ↔ .tree child ∈ tree.children := by
  simp [subtrees, Child.tree?_eq_some_iff]

/-- Nodes on a way down: each is in a slot of the one in front of it. -/
def IsPath (path : List Tree) : Prop :=
  path.IsChain fun node below => .tree below ∈ node.children

/-- A path is no longer than the node is high where it begins. -/
theorem IsPath.length_le {path : List Tree} (h : IsPath (tree :: path))
    (hheight : tree.height ≤ limit) : (tree :: path).length ≤ limit := by
  induction path generalizing tree limit with
  | nil => exact (height_pos tree).trans_le hheight
  | cons below path ih =>
      obtain ⟨hbelow, hpath⟩ := List.isChain_cons_cons.1 h
      cases limit with
      | zero => exact absurd hheight (Nat.not_le.2 (height_pos tree))
      | succ limit => exact Nat.succ_le_succ (ih hpath (height_le_succ_iff.1 hheight below hbelow))

theorem depth_le_of_mem_outlineLines {showAbsent : Bool} {line : Outline.Line}
    (h : line ∈ tree.outlineLines showAbsent 0) : line.depth ≤ tree.height := by
  have hslot : line ∈ Child.outlineLines showAbsent 0 [.tree tree] := by
    simpa [Child.outlineLines] using h
  simpa using Child.depth_le_of_mem_outlineLines hslot

end Tree

/-! ### Recursion over a tree -/

mutual

/-- A value for a node, from the node and the values for the nodes in its slots. -/
def Tree.fold {α : Type} (value : Tree → List α → α) : Tree → α
  | .node kind children span => value (.node kind children span) (Child.foldAll value children)

/-- The values for the nodes in slots. -/
def Child.foldAll {α : Type} (value : Tree → List α → α) : List Child → List α
  | [] => []
  | .tree node :: children => node.fold value :: Child.foldAll value children
  | .token _ :: children => Child.foldAll value children
  | .absent :: children => Child.foldAll value children

end

namespace Tree

variable {α : Type} {value : Tree → List α → α} {tree : Tree} {calls : ℕ}

theorem fold_eq (tree : Tree) :
    tree.fold value = value tree (tree.subtrees.map (fold value)) := by
  have hslots (slots : List Child) :
      Child.foldAll value slots = (slots.filterMap Child.tree?).map (fold value) := by
    induction slots with
    | nil => rfl
    | cons slot slots ih => cases slot <;> simp [Child.foldAll, List.filterMap_cons, ih]
  obtain ⟨kind, children, span⟩ := tree
  rw [fold, hslots]
  rfl

/-- The value for a node, found with no more than the given number of calls open at once. -/
def foldWithin (value : Tree → List α → α) : ℕ → Tree → Option α
  | 0, _ => none
  | calls + 1, tree => (tree.subtrees.mapM (foldWithin value calls)).map (value tree)

theorem mapM_ite {β γ : Type} (p : β → Prop) [DecidablePred p] (g : β → γ) (items : List β) :
    (items.mapM fun item => if p item then some (g item) else none) =
      if ∀ item ∈ items, p item then some (items.map g) else none := by
  induction items with
  | nil => simp
  | cons item items ih =>
      rw [List.mapM_cons, ih]
      by_cases h : p item
      · by_cases hitems : ∀ item ∈ items, p item
        · rw [if_pos h, if_pos hitems, if_pos (List.forall_mem_cons.2 ⟨h, hitems⟩)]
          rfl
        · rw [if_pos h, if_neg hitems, if_neg fun hall => hitems (List.forall_mem_cons.1 hall).2]
          rfl
      · rw [if_neg h, if_neg fun hall => h (List.forall_mem_cons.1 hall).1]
        rfl

/-- **The calls that a recursion has open at once are the nodes on a longest path.** -/
theorem foldWithin_eq :
    tree.foldWithin value calls = if tree.height ≤ calls then some (tree.fold value) else none := by
  induction calls generalizing tree with
  | zero => rw [foldWithin, if_neg (Nat.not_le.2 tree.height_pos)]
  | succ calls ih =>
      have hwithin : foldWithin value calls = fun child =>
          if child.height ≤ calls then some (child.fold value) else none := funext fun _ => ih
      have hchildren :
          (∀ child ∈ tree.subtrees, child.height ≤ calls) ↔ tree.height ≤ calls + 1 := by
        simp only [height_le_succ_iff, mem_subtrees]
      rw [foldWithin, hwithin, mapM_ite, fold_eq tree]
      by_cases h : tree.height ≤ calls + 1
      · rw [if_pos h, if_pos (hchildren.2 h)]
        rfl
      · rw [if_neg h, if_neg (mt hchildren.1 h)]
        rfl

end Tree

/-! ### The height of what phrases make -/

namespace Phrase

/-- How high the nodes are that a phrase makes, in which groups and arguments may be nested to the
given depth. -/
def maxHeight : Phrase → ℕ → ℕ
  | value, n | arguments, n => n + 1
  | atom, n => 5 * n + 1
  | item, n | items, n => 5 * n + 2
  | alternative _, n | alternatives _, n => 5 * n + 4
  | expansions _, n => 5 * n + 5
  | names _ _, _ | priority, _ | declared, _ => 0
  | params, _ | path, _ => 1
  | definition, n => 5 * n + 6
  | statement, n | lines, n => 5 * n + 7

theorem height_itemsNode (start : Span) (items : List Child) :
    (itemsNode start items).height = Child.heightAll items + 1 := by simp [itemsNode]

theorem height_unnamedNode (start : Span) (items : List Child) :
    (unnamedNode start items).height = Child.heightAll items + 2 := by
  simp [unnamedNode, height_itemsNode]

theorem height_namedNode (start : Span) (items : List Child) (target : Token) :
    (namedNode start items target).height = Child.heightAll items + 2 := by
  simp [namedNode, height_itemsNode]

theorem height_pathNode (start : Span) (relative names : List Token) :
    (pathNode start relative names).height = 1 := by
  rw [pathNode, Tree.height_node, Child.heightAll_tokens]

/-- **A phrase makes only nodes that are as low as it says.** -/
theorem Derives.height_le {phrase : Phrase} {n : ℕ} {s r : TokenStream} {slots : List Child}
    (h : phrase.Derives n s r slots) : Child.heightAll slots ≤ phrase.maxHeight n := by
  induction h with
  -- a level deeper: arguments add one node, and what is in brackets at most five
  | usage _ _ _ _ ih => simpa [maxHeight] using ih
  | parens _ _ _ ih | brackets _ _ _ ih =>
      simp [maxHeight] at ih ⊢
      omega
  -- on one level
  | single _ ih | operated _ _ ih | counted _ _ _ ih | countedUpTo _ _ _ _ _ ih | plain _ ih =>
      simp [maxHeight, countNode] at ih ⊢
      omega
  | unnamed _ ih | named _ _ _ ih =>
      simp [maxHeight, height_unnamedNode, height_namedNode] at ih ⊢
      omega
  | expansions _ ih => simpa [maxHeight, Parse.expansionsNode] using ih
  | argument _ _ _ ih ih' | items _ _ ih ih' | alternative _ _ _ ih ih' | line _ _ _ ih ih' =>
      simp [maxHeight] at ih ih' ⊢
      exact ⟨ih, ih'⟩
  | lastArgument _ ih | lastAlternative _ ih | blankLine _ _ ih | lastLine _ ih => exact ih
  -- above all levels
  | params _ _ _ ih => simpa [maxHeight] using ih
  | rule _ _ _ _ _ ihparams ihpriority ihbody =>
      simp [maxHeight] at ihparams ihpriority ihbody ⊢
      omega
  | term _ _ _ _ ihpriority ihbody =>
      simp [maxHeight] at ihpriority ihbody ⊢
      omega
  | path | relativePath => simp [maxHeight, height_pathNode]
  | declare => simp [maxHeight, Child.heightAll_tokens]
  | defines _ ih | ignore _ _ ih | importPath _ _ ih | importAs _ _ _ _ ih | override _ _ ih
  | extend _ _ ih =>
      simp [maxHeight] at ih ⊢
      omega
  | importNames _ _ _ _ _ ihpath ihnames =>
      simp [maxHeight] at ihpath ihnames ⊢
      omega
  -- what is left makes tokens, or low nodes of tokens
  | _ => simp_all [maxHeight]

end Phrase

namespace Tree

variable {source : String} {tree : Tree}

theorem height_le_of_ofSource (h : ofSource source = .ok tree) :
    tree.height ≤ 8 + 5 * Parse.maxNesting := by
  obtain ⟨trees, r, rfl, hderives, -⟩ := ofSource_eq_ok_iff.1 h
  have hslots : _ ≤ 5 * Parse.maxNesting + 7 := hderives.height_le
  rw [height_node]
  omega

/-- **The tree of a text has a fixed height**: all paths down have a fixed length, outlines a fixed
number of levels, and recursions a fixed number of calls that are open at once. -/
theorem path_length_le_of_ofSource (h : ofSource source = .ok tree) :
    (∀ path, IsPath (tree :: path) → (tree :: path).length ≤ 8 + 5 * Parse.maxNesting) ∧
      (∀ showAbsent, ∀ line ∈ tree.outlineLines showAbsent 0,
        line.depth ≤ 8 + 5 * Parse.maxNesting) ∧
      ∀ {α : Type} (value : Tree → List α → α),
        tree.foldWithin value (8 + 5 * Parse.maxNesting) = some (tree.fold value) := by
  have hheight := height_le_of_ofSource h
  refine ⟨fun path hpath => hpath.length_le hheight, ?lines, ?fold⟩
  case lines =>
    intro showAbsent line hline
    exact (depth_le_of_mem_outlineLines hline).trans hheight
  case fold =>
    intro α value
    rw [foldWithin_eq, if_pos hheight]

set_option maxRecDepth 4000 in
/-- A tree with one level of nesting that is as high as such a tree may be. -/
theorem height_override :
    ∃ tree path, ofSource "%override a: [\"b\"..\"c\"?]+" = .ok tree ∧ IsPath (tree :: path) ∧
      (tree :: path).length = 8 + 5 * 1 ∧
      (tree :: path).length ≤ 8 + 5 * Parse.maxNesting ∧
      tree.foldWithin (fun _ heights => heights.foldr max 0 + 1) (8 + 5 * Parse.maxNesting) =
        some (8 + 5 * 1) := by
  let expansion (item : Tree) : Tree := .node .expansion [.tree item] item.span
  let alternative (item : Tree) : Tree :=
    .node .alternative [.tree (expansion item), .absent] item.span
  let expansions (item : Tree) : Tree := .node .expansions [.tree (alternative item)] item.span
  let low : Token := ⟨.string "b" false, ⟨14, 17, 1, 15⟩⟩
  let high : Token := ⟨.string "c" false, ⟨19, 22, 1, 20⟩⟩
  let range : Tree := .node .range [.token low, .token high] ⟨14, 22, 1, 15⟩
  let optional : Tree :=
    .node .expr [.tree range, .token ⟨.punctuation .question, ⟨22, 23, 1, 23⟩⟩] ⟨14, 23, 1, 15⟩
  let maybe : Tree := .node .maybe [.tree (expansions optional)] ⟨13, 24, 1, 14⟩
  let repeated : Tree :=
    .node .expr [.tree maybe, .token ⟨.punctuation .plus, ⟨24, 25, 1, 25⟩⟩] ⟨13, 25, 1, 14⟩
  let rule : Tree :=
    .node .rule [.token ⟨.rule "a", ⟨10, 11, 1, 11⟩⟩, .absent, .absent, .tree (expansions repeated)]
      ⟨10, 25, 1, 11⟩
  let override : Tree := .node .override [.tree rule] ⟨0, 25, 1, 1⟩
  have h : ofSource "%override a: [\"b\"..\"c\"?]+" =
      .ok (.node .start [.tree override] ⟨0, 25, 1, 1⟩) := by cbv
  obtain ⟨hpaths, -, hfold⟩ := path_length_le_of_ofSource h
  let path : List Tree := [override, rule, expansions repeated, alternative repeated,
    expansion repeated, repeated, maybe, expansions optional, alternative optional,
    expansion optional, optional, range]
  have hpath : IsPath (.node .start [.tree override] ⟨0, 25, 1, 1⟩ :: path) := by
    simp [IsPath, path, override, rule, expansions, alternative, expansion, repeated, maybe,
      optional]
  exact ⟨_, path, h, hpath, rfl, hpaths path hpath, hfold _⟩

end Tree

end GrammarCatalog
