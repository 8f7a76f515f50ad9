/-
**Trees of a grammar text.**

A tree node has a kind, a list of child slots, and the span it covers.  A slot holds another node,
a token, or nothing; an optional part that was not written keeps its slot, so the slots of a kind
of node stay in their places.

Main definitions:

* `GrammarCatalog.NodeKind` — what a node stands for;
* `GrammarCatalog.Tree`, `GrammarCatalog.Child` — nodes and child slots;
* `GrammarCatalog.Tree.preorder` — a node and all nodes below it, parents first;
* `GrammarCatalog.Tree.Walk`, `GrammarCatalog.Tree.Walk.next` — a walk over a tree, with a stack of
  the nodes still to visit, and its step;
* `GrammarCatalog.Tree.topdown` — the nodes that a walk comes by.

Main results:

* `GrammarCatalog.Tree.Walk.next_spec` — a step takes away the first node that is still to come;
* `GrammarCatalog.Tree.topdown_eq_preorder` — a walk finds the nodes of the traversal, in its order.
-/

import GrammarCatalog.Token.Basic

set_option relaxedAutoImplicit false
set_option autoImplicit false

namespace GrammarCatalog

/-! ### Kinds of nodes -/

/-- What a node stands for. -/
inductive NodeKind where
  /-- A whole grammar: one node for each statement. -/
  | start
  /-- A rule: name, parameters or nothing, priority or nothing, alternatives. -/
  | rule
  /-- A terminal: name, priority or nothing, alternatives. -/
  | term
  /-- The parameters of a rule: their names. -/
  | templateParams
  /-- Alternatives: one node for each. -/
  | expansions
  /-- One alternative: its items, and its alias name or nothing. -/
  | alternative
  /-- The items of one alternative. -/
  | expansion
  /-- An item with an operator: the operand and the sign, or the operand, a count, and an upper
  count or nothing. -/
  | expr
  /-- Alternatives in brackets. -/
  | maybe
  /-- A range: its two strings. -/
  | range
  /-- A rule with arguments: its name and the arguments. -/
  | templateUsage
  /-- Ignored text: its alternatives. -/
  | ignore
  /-- An import: a path, and a new name or nothing. -/
  | importing
  /-- An import of several names: a path and the names. -/
  | multiImport
  /-- A path: a dot if it is relative, and its names. -/
  | importPath
  /-- A declaration: its names. -/
  | declare
  /-- A definition in place of an imported one. -/
  | override
  /-- More alternatives for an imported definition. -/
  | extend
  deriving DecidableEq, Repr, Inhabited

/-- How a kind of node is named. -/
def NodeKind.name : NodeKind → String
  | start => "start"
  | rule => "rule"
  | term => "term"
  | templateParams => "template_params"
  | expansions => "expansions"
  | alternative => "alias"
  | expansion => "expansion"
  | expr => "expr"
  | maybe => "maybe"
  | range => "range"
  | templateUsage => "template_usage"
  | ignore => "ignore"
  | importing => "import"
  | multiImport => "multi_import"
  | importPath => "import_path"
  | declare => "declare"
  | override => "override"
  | extend => "extend"

theorem NodeKind.name_injective {left right : NodeKind} (h : left.name = right.name) :
    left = right := by
  revert h
  cases left <;> cases right <;> decide

/-! ### Nodes and slots -/

mutual

/-- A node: its kind, its child slots in the order of the text, and the span it covers. -/
inductive Tree where
  | node (kind : NodeKind) (children : List Child) (span : Span)

/-- A child slot: a node, a token, or nothing where an optional part was not written. -/
inductive Child where
  | tree (tree : Tree)
  | token (token : Token)
  | absent

end

instance : Inhabited Tree := ⟨.node .start [] Span.origin⟩

instance : Inhabited Child := ⟨.absent⟩

namespace Child

/-- The node in a slot. -/
def tree? : Child → Option Tree
  | tree node => some node
  | _ => none

/-- The token in a slot. -/
def token? : Child → Option Token
  | token leaf => some leaf
  | _ => none

@[simp] theorem tree?_tree (node : Tree) : (tree node).tree? = some node := rfl

@[simp] theorem tree?_token (leaf : Token) : (token leaf).tree? = none := rfl

@[simp] theorem tree?_absent : absent.tree? = none := rfl

/-- The rule name in a slot. -/
def ruleName? (child : Child) : Option String := child.token?.bind fun token => token.kind.ruleName?

end Child

namespace Tree

/-- What a node stands for. -/
def kind : Tree → NodeKind
  | node kind _ _ => kind

/-- The child slots of a node. -/
def children : Tree → List Child
  | node _ children _ => children

/-- The span that a node covers. -/
def span : Tree → Span
  | node _ _ span => span

/-- The node with another span. -/
def withSpan (span : Span) : Tree → Tree
  | node kind children _ => node kind children span

@[simp] theorem kind_node (kind : NodeKind) (children : List Child) (span : Span) :
    (node kind children span).kind = kind := rfl

@[simp] theorem children_node (kind : NodeKind) (children : List Child) (span : Span) :
    (node kind children span).children = children := rfl

@[simp] theorem span_node (kind : NodeKind) (children : List Child) (span : Span) :
    (node kind children span).span = span := rfl

/-- The nodes among the children of a node. -/
def subtrees (tree : Tree) : List Tree := tree.children.filterMap Child.tree?

end Tree

/-- The span that a slot covers.  Nothing covers the empty span at the start of the text, which
adds nothing to a span that it is merged with. -/
def Child.span : Child → Span
  | tree node => node.span
  | token leaf => leaf.span
  | absent => Span.origin

@[simp] theorem Child.merge_span_absent (span : Span) : span.merge Child.absent.span = span := by
  simp [Child.span, Span.merge, Span.origin]

/-! ### Traversals -/

mutual

/-- A node and all nodes below it: parents before children, siblings in order. -/
def Tree.preorder : Tree → List Tree
  | .node kind children span => .node kind children span :: Child.preorderAll children

/-- All nodes in a list of slots. -/
def Child.preorderAll : List Child → List Tree
  | [] => []
  | .tree node :: children => node.preorder ++ Child.preorderAll children
  | .token _ :: children => Child.preorderAll children
  | .absent :: children => Child.preorderAll children

end

namespace Tree

theorem preorderAll_eq_flatMap (children : List Child) :
    Child.preorderAll children = (children.filterMap Child.tree?).flatMap preorder := by
  induction children with
  | nil => rfl
  | cons child children ih => cases child <;> simp [Child.preorderAll, List.filterMap_cons, ih]

/-- The traversal of a node is the node and then the traversals of the nodes among its children. -/
theorem preorder_eq (tree : Tree) : tree.preorder = tree :: tree.subtrees.flatMap preorder := by
  cases tree with
  | node kind children span =>
      rw [preorder, preorderAll_eq_flatMap]
      rfl

/-! ### Walks -/

/-- A walk over a tree. -/
structure Walk where
  /-- The nodes still to visit, the next one last. -/
  stack : List Tree

namespace Walk

/-- A step of a walk: the node on top of the stack if there is one, and the walk with the nodes in
its slots in its place, the first on top. -/
def next (walk : Walk) : Option Tree × Walk :=
  match walk.stack.getLast? with
  | none => (none, walk)
  | some tree =>
      let start := walk.stack.dropLast.length
      let extended := walk.stack.dropLast ++ tree.subtrees
      (some tree, ⟨extended.take start ++ (extended.drop start).reverse⟩)

/-- The nodes that are still to come: the traversals of the nodes on the stack. -/
def pending (walk : Walk) : List Tree := walk.stack.reverse.flatMap preorder

/-- **A step takes away the first node that is still to come.** -/
theorem next_spec (walk : Walk) :
    walk.next.1 = walk.pending.head? ∧ walk.next.2.pending = walk.pending.tail := by
  obtain ⟨stack⟩ := walk
  rcases stack.eq_nil_or_concat with rfl | ⟨below, tree, rfl⟩
  · simp [next, pending]
  · simp [next, pending, preorder_eq tree]

theorem pending_eq_cons {walk : Walk} {tree : Tree} (h : walk.next.1 = some tree) :
    walk.pending = tree :: walk.next.2.pending := by
  obtain ⟨hfirst, hothers⟩ := walk.next_spec
  obtain ⟨others, hpending⟩ := List.head?_eq_some_iff.1 (hfirst.symm.trans h)
  rw [hothers, hpending, List.tail_cons]

/-- The nodes that a walk comes by, until it has no more. -/
def toList (walk : Walk) : List Tree :=
  match _h : walk.next.1 with
  | none => []
  | some tree => tree :: walk.next.2.toList
termination_by walk.pending.length
decreasing_by
  rw [pending_eq_cons _h]
  exact Nat.lt_succ_self _

/-- A walk comes by the nodes that are still to come. -/
theorem toList_eq (walk : Walk) : walk.toList = walk.pending := by
  fun_induction toList walk with
  | case1 walk h => exact (List.head?_eq_none_iff.1 (walk.next_spec.1.symm.trans h)).symm
  | case2 walk tree h ih => rw [ih, pending_eq_cons h]

end Walk

/-- The walk over a tree. -/
def walk (tree : Tree) : Walk := ⟨[tree]⟩

/-- A node and all nodes below it, as a walk comes by them. -/
def topdown (tree : Tree) : List Tree := tree.walk.toList

theorem topdown_eq_preorder (tree : Tree) : tree.topdown = tree.preorder := by
  rw [topdown, Walk.toList_eq]
  exact List.flatMap_singleton preorder tree

/-- The number of nodes of a tree. -/
def nodeCount (tree : Tree) : Nat := tree.topdown.length

end Tree

end GrammarCatalog
