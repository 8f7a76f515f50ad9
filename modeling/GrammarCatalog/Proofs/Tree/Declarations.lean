/-
**The nodes that declare.**

By its layout a node of a rule has a rule name in its first slot, and an alternative has two slots,
the second with a rule name or empty.  So asking a node of the tree of a text what it declares never
fails, and what it declares is written in one of its leaves.

Main definitions:

* `GrammarCatalog.Tree.Declares` — a node declares nothing, or a name in one of its leaves.

Main results:

* `GrammarCatalog.Tree.leaves_subset_of_mem_preorder` — the leaves of a node below another one are
  leaves of that one;
* `GrammarCatalog.Tree.LaidOut.declares` — a node with the layout of its kind declares;
* `GrammarCatalog.Tree.exists_declaration_of_mem_topdown` — **what the nodes of the tree of a text
  declare** is spelled by its tokens.
-/

import GrammarCatalog.Declaration.Basic
import GrammarCatalog.Proofs.Tree.Layout
import GrammarCatalog.Proofs.Tree.Leaves

set_option relaxedAutoImplicit false
set_option autoImplicit false

namespace GrammarCatalog

/-- The kinds of nodes that may declare a name. -/
def NodeKind.declares : NodeKind → Bool
  | rule | alternative => true
  | _ => false

namespace Tree

/-- A node declares nothing, or a name that one of its leaves spells. -/
def Declares (node : Tree) : Prop :=
  ∃ declaration, node.declaration? = .ok declaration ∧
    ∀ other ∈ declaration, ∃ leaf ∈ node.leaves, leaf.kind = .rule other.spelling

/-- A node of a kind that declares nothing, whatever its slots. -/
theorem declares_node {kind : NodeKind} (hkind : kind.declares = false) (slots : List Child)
    (span : Span) : Declares (.node kind slots span) := by
  refine ⟨none, ?_, by simp⟩
  cases kind with
  | rule => contradiction
  | alternative => contradiction
  | _ => rfl

theorem declares_rule {name : Token} (hname : name.kind.isRule = true) (slots : List Child)
    (span : Span) : Declares (.node .rule (.token name :: slots) span) := by
  cases hkind : name.kind with
  | rule text =>
      refine ⟨some ⟨text, .rule⟩, ?_, ?_⟩
      · simp [declaration?, ruleDeclaration, Child.ruleName?, Child.token?, hkind,
          TokenKind.ruleName?]
      · intro other hother
        obtain rfl : ⟨text, .rule⟩ = other := by simpa using hother
        exact ⟨name, by simp [leaves, Child.leavesAll, Child.leaves], hkind⟩
  | _ => simp [hkind, TokenKind.isRule] at hname

theorem declares_unnamed (expansion : Child) (span : Span) :
    Declares (.node .alternative [expansion, .absent] span) := ⟨none, rfl, by simp⟩

theorem declares_named {target : Token} (htarget : target.kind.isRule = true) (expansion : Child)
    (span : Span) : Declares (.node .alternative [expansion, .token target] span) := by
  cases hkind : target.kind with
  | rule text =>
      refine ⟨some ⟨text, .aliased⟩, ?_, ?_⟩
      · simp [declaration?, aliasDeclaration?, Child.ruleName?, Child.token?, hkind,
          TokenKind.ruleName?]
      · intro other hother
        obtain rfl : ⟨text, .aliased⟩ = other := by simpa using hother
        exact ⟨target, by simp [leaves, Child.leavesAll, Child.leaves], hkind⟩
  | _ => simp [hkind, TokenKind.isRule] at htarget

/-- A node with the layout of its kind declares nothing, or a name in one of its leaves. -/
theorem LaidOut.declares {node : Tree} (h : node.LaidOut) : node.Declares := by
  obtain ⟨kind, slots, span⟩ := node
  change Layout kind slots at h
  cases h with
  | @rule name _ _ _ hname _ _ _ =>
      cases name with
      | token leaf => exact declares_rule hname _ span
      | _ => contradiction
  | @alternative items target _ htarget =>
      cases target with
      | absent => exact declares_unnamed items span
      | token leaf => exact declares_named htarget items span
      | tree node => contradiction
  | _ => exact declares_node rfl _ span

end Tree

namespace Phrase

theorem kind_of_expansions {aliases : Bool} {n : ℕ} {s r : TokenStream} {body : Tree}
    (h : Derives (.expansions aliases) n s r [.tree body]) : body.kind = .expansions := by
  cases h
  rfl

end Phrase

/-! ### Leaves of nodes below -/

mutual

theorem Tree.leaves_subset_of_mem_preorder :
    ∀ (tree node : Tree), node ∈ tree.preorder → node.leaves ⊆ tree.leaves
  | .node kind slots span, node, hnode => by
      rw [Tree.preorder, List.mem_cons] at hnode
      rcases hnode with rfl | hnode
      · exact List.Subset.refl _
      · exact Child.leaves_subset_of_mem_preorderAll slots node hnode

theorem Child.leaves_subset_of_mem_preorderAll :
    ∀ (slots : List Child) (node : Tree), node ∈ Child.preorderAll slots →
      node.leaves ⊆ Child.leavesAll slots
  | .tree tree :: slots, node, hnode => by
      rw [Child.preorderAll, List.mem_append] at hnode
      rw [Child.leavesAll, Child.leaves]
      rcases hnode with hnode | hnode
      · exact List.Subset.trans (Tree.leaves_subset_of_mem_preorder tree node hnode)
          (List.subset_append_left _ _)
      · exact List.Subset.trans (Child.leaves_subset_of_mem_preorderAll slots node hnode)
          (List.subset_append_right _ _)
  | .token leaf :: slots, node, hnode =>
      List.Subset.trans (Child.leaves_subset_of_mem_preorderAll slots node hnode)
        (List.subset_append_right _ _)
  | .absent :: slots, node, hnode =>
      List.Subset.trans (Child.leaves_subset_of_mem_preorderAll slots node hnode)
        (List.subset_append_right _ _)

end

namespace Tree

variable {source : String} {tree node : Tree}

/-- A leaf of the tree of a text is a dot, or a token of the text that has content. -/
theorem mem_contents_of_mem_leaves (h : ofSource source = .ok tree) {leaf : Token}
    (hleaf : leaf ∈ tree.leaves) (hdot : leaf.kind ≠ .punctuation .dot) :
    leaf ∈ contents (Token.ofSource source) := by
  obtain ⟨trees, r, rfl, hderives, -⟩ := ofSource_eq_ok_iff.1 h
  have hkept : leaf ∈ Child.keptAll (trees.map .tree) :=
    List.mem_filter.2 ⟨hleaf, by simpa using hdot⟩
  rw [← contents_significant, ← TokenStream.toList_ofSource,
    ← hderives.keptAll_append_contents trivial]
  exact List.mem_append_left _ hkept

/-- A rule name among the leaves of the tree of a text is a token of the text. -/
theorem mem_ofSource_of_mem_leaves (h : ofSource source = .ok tree) {leaf : Token}
    (hleaf : leaf ∈ tree.leaves) {name : String} (hkind : leaf.kind = .rule name) :
    leaf ∈ Token.ofSource source :=
  (List.mem_filter.1 (mem_contents_of_mem_leaves h hleaf (by simp [hkind]))).1

/-- **Every node of the tree of a text declares** nothing, or a name that a token of the text
spells. -/
theorem exists_declaration_of_mem_topdown (h : ofSource source = .ok tree)
    (hnode : node ∈ tree.topdown) :
    ∃ declaration, node.declaration? = .ok declaration ∧
      ∀ other ∈ declaration, ∃ token ∈ Token.ofSource source,
        token.kind = .rule other.spelling := by
  rw [topdown_eq_preorder] at hnode
  have hmem : node ∈ Child.preorderAll [.tree tree] := by simpa [Child.preorderAll] using hnode
  obtain ⟨declaration, hdeclaration, hleaves⟩ := (laidOut_ofSource h node hmem).declares
  refine ⟨declaration, hdeclaration, ?_⟩
  intro other hother
  obtain ⟨leaf, hleaf, hkind⟩ := hleaves other hother
  have hleaf := leaves_subset_of_mem_preorder tree node hnode hleaf
  exact ⟨leaf, mem_ofSource_of_mem_leaves h hleaf hkind, hkind⟩

end Tree

end GrammarCatalog
