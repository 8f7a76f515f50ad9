/-
**Traversals in the order of the text.**

A walk over a tree answers with one node after another, until it has none left.  Since each step
takes away the first node that is still to come, the answers are the nodes of the traversal, in its
order.

That a node comes once for each place it has in the tree is said with the places themselves: the
numbers of the slots on the way down.  A traversal is through the places in the order of these
numbers, a place before all below it.  The lines of an outline are in the same order.

Main definitions:

* `GrammarCatalog.Tree.Walk.answer` — what a walk answers when it is asked again and again;
* `GrammarCatalog.Child.at?` — the slot at the end of a way down;
* `GrammarCatalog.Tree.places` — the slots of a tree with the ways to them.

Main results:

* `GrammarCatalog.Tree.Walk.answer_eq` — a walk answers with the nodes that are still to come;
* `GrammarCatalog.Tree.pairwise_places`, `GrammarCatalog.Tree.mem_places_iff` — all slots of a tree
  are among its places, in order;
* `GrammarCatalog.Tree.outlineLines_eq_map_places` — the lines of an outline show the places;
* `GrammarCatalog.Tree.answer_walk_eq` — **a walk comes by every node once**, parents first and in
  the order of the outline, and then ends.
-/

import GrammarCatalog.Tree.Outline
import GrammarCatalog.Proofs.Tree.EmptySlots

set_option relaxedAutoImplicit false
set_option autoImplicit false

namespace GrammarCatalog

namespace Tree

/-! ### Walks -/

namespace Walk

/-- What a walk answers when it is asked again and again, counted from zero. -/
def answer (walk : Walk) : ℕ → Option Tree
  | 0 => walk.next.1
  | count + 1 => walk.next.2.answer count

/-- A walk answers with the nodes that are still to come, and then with nothing. -/
theorem answer_eq (walk : Walk) (count : ℕ) : walk.answer count = walk.pending[count]? := by
  induction count generalizing walk with
  | zero => rw [answer, walk.next_spec.1, List.head?_eq_getElem?]
  | succ count ih => rw [answer, ih, walk.next_spec.2, List.getElem?_tail]

end Walk

end Tree

/-! ### Places -/

/-- A slot of a tree, with the numbers of the slots on the way down to it. -/
structure Tree.Place where
  /-- The numbers of the slots, from the top. -/
  path : List ℕ
  /-- The slot. -/
  slot : Child

namespace Tree.Place

/-- Places are ordered by the numbers on the way down: a place is before all below it. -/
instance : LT Tree.Place := ⟨fun earlier later => earlier.path < later.path⟩

theorem lt_iff {earlier later : Tree.Place} : earlier < later ↔ earlier.path < later.path := Iff.rfl

/-- The place as it is called from one level further up. -/
def below (index : ℕ) (place : Tree.Place) : Tree.Place := ⟨index :: place.path, place.slot⟩

/-- The node at a place. -/
def node? (place : Tree.Place) : Option Tree := place.slot.tree?

@[simp] theorem node?_mk (path : List ℕ) (slot : Child) : node? ⟨path, slot⟩ = slot.tree? := rfl

end Tree.Place

mutual

/-- A node and the slots below it: a node before its slots, and the slots in order. -/
def Tree.places : Tree → List Tree.Place
  | .node kind children span =>
      ⟨[], .tree (.node kind children span)⟩ :: Child.placesFrom 0 children

/-- Slots and the slots below them, the first slot with the given number. -/
def Child.placesFrom (index : ℕ) : List Child → List Tree.Place
  | [] => []
  | .tree node :: children =>
      node.places.map (Tree.Place.below index) ++ Child.placesFrom (index + 1) children
  | .token leaf :: children => ⟨[index], .token leaf⟩ :: Child.placesFrom (index + 1) children
  | .absent :: children => ⟨[index], .absent⟩ :: Child.placesFrom (index + 1) children

end

namespace Child

variable {index : ℕ} {slot : Child} {slots : List Child} {place : Tree.Place}

/-- The slot at the end of a way down from a slot. -/
def at? : List ℕ → Child → Option Child
  | [], slot => some slot
  | index :: path, slot => slot.tree?.bind fun node => node.children[index]?.bind (at? path)

/-- A slot and the slots below it. -/
def places : Child → List Tree.Place
  | tree node => node.places
  | slot => [⟨[], slot⟩]

theorem placesFrom_cons (slot : Child) (slots : List Child) :
    placesFrom index (slot :: slots) =
      slot.places.map (Tree.Place.below index) ++ placesFrom (index + 1) slots := by
  cases slot <;> simp [placesFrom, places, Tree.Place.below]

/-! ### The order of places -/

theorem exists_path_of_mem_placesFrom (h : place ∈ placesFrom index slots) :
    ∃ first path, place.path = first :: path ∧ index ≤ first := by
  induction slots generalizing index with
  | nil => simp [placesFrom] at h
  | cons slot slots ih =>
      rw [placesFrom_cons, List.mem_append, List.mem_map] at h
      rcases h with ⟨inner, -, rfl⟩ | h
      · exact ⟨index, inner.path, rfl, le_rfl⟩
      · obtain ⟨first, path, hpath, hfirst⟩ := ih h
        exact ⟨first, path, hpath, Nat.le_of_succ_le hfirst⟩

theorem pairwise_placesFrom_cons (hslot : slot.places.Pairwise (· < ·))
    (hslots : (placesFrom (index + 1) slots).Pairwise (· < ·)) :
    (placesFrom index (slot :: slots)).Pairwise (· < ·) := by
  rw [placesFrom_cons, List.pairwise_append, List.pairwise_map]
  refine ⟨hslot.imp ?_, hslots, ?_⟩
  · intro earlier later h
    exact List.cons_lt_cons_iff.2 (Or.inr ⟨rfl, h⟩)
  · intro earlier hearlier later hlater
    obtain ⟨inner, -, rfl⟩ := List.mem_map.1 hearlier
    obtain ⟨first, path, hpath, hfirst⟩ := exists_path_of_mem_placesFrom hlater
    rw [Tree.Place.lt_iff, hpath]
    exact List.cons_lt_cons_iff.2 (Or.inl hfirst)

theorem pairwise_places_node {kind : NodeKind} {span : Span}
    (h : (placesFrom 0 slots).Pairwise (· < ·)) :
    (Tree.node kind slots span).places.Pairwise (· < ·) := by
  rw [Tree.places, List.pairwise_cons]
  refine ⟨fun place hplace => ?_, h⟩
  obtain ⟨first, path, hpath, -⟩ := exists_path_of_mem_placesFrom hplace
  rw [Tree.Place.lt_iff, hpath]
  exact List.nil_lt_cons _ _

/-- Places are in order. -/
theorem pairwise_placesFrom (slots : List Child) (index : ℕ) :
    (placesFrom index slots).Pairwise (· < ·) := by
  induction slots using slots_induction generalizing index with
  | nil => exact .nil
  | tree kind children span slots ih ih' =>
      exact pairwise_placesFrom_cons (pairwise_places_node (ih 0)) (ih' _)
  | token leaf slots ih | absent slots ih =>
      exact pairwise_placesFrom_cons (List.pairwise_singleton _ _) (ih _)

/-! ### All slots have places -/

theorem mem_placesFrom_iff (h : ∀ slot ∈ slots, ∀ place : Tree.Place,
    place ∈ slot.places ↔ at? place.path slot = some place.slot) :
    place ∈ placesFrom index slots ↔ ∃ number path, place.path = (index + number) :: path ∧
      slots[number]?.bind (at? path) = some place.slot := by
  induction slots generalizing index with
  | nil => simp [placesFrom]
  | cons slot slots ih =>
      rw [List.forall_mem_cons] at h
      rw [placesFrom_cons, List.mem_append, List.mem_map, ih h.2]
      constructor
      · rintro (⟨inner, hinner, rfl⟩ | ⟨number, path, hpath, hslot⟩)
        · exact ⟨0, inner.path, rfl, (h.1 inner).1 hinner⟩
        · exact ⟨number + 1, path, by rw [hpath, Nat.add_right_comm, Nat.add_assoc], hslot⟩
      · obtain ⟨way, target⟩ := place
        rintro ⟨number | number, path, rfl, hslot⟩
        · exact Or.inl ⟨⟨path, target⟩, (h.1 ⟨path, target⟩).2 hslot, rfl⟩
        · exact Or.inr ⟨number, path, by simp [Nat.add_right_comm, Nat.add_assoc], hslot⟩

theorem mem_places_node_iff {kind : NodeKind} {span : Span}
    (h : ∀ slot ∈ slots, ∀ place : Tree.Place,
      place ∈ slot.places ↔ at? place.path slot = some place.slot) :
    place ∈ places (.tree (.node kind slots span)) ↔
      at? place.path (.tree (.node kind slots span)) = some place.slot := by
  obtain ⟨path, slot⟩ := place
  rw [places, Tree.places, List.mem_cons, mem_placesFrom_iff h]
  cases path with
  | nil => simp [at?, eq_comm]
  | cons number path => simp [at?]

/-- The places of a slot are the ways down from it. -/
theorem mem_places_iff : place ∈ slot.places ↔ at? place.path slot = some place.slot := by
  suffices h : ∀ slots : List Child, ∀ slot ∈ slots, ∀ place : Tree.Place,
      place ∈ slot.places ↔ at? place.path slot = some place.slot from
    h [slot] slot List.mem_cons_self place
  intro slots
  induction slots using slots_induction with
  | nil => exact List.forall_mem_nil _
  | tree kind children span slots ih ih' =>
      exact List.forall_mem_cons.2 ⟨fun place => mem_places_node_iff ih, ih'⟩
  | token leaf slots ih | absent slots ih =>
      refine List.forall_mem_cons.2 ⟨fun place => ?_, ih⟩
      obtain ⟨path, slot⟩ := place
      cases path <;> simp [places, at?, eq_comm]

/-! ### Nodes and lines -/

theorem filterMap_node?_node {kind : NodeKind} {span : Span}
    (h : (placesFrom 0 slots).filterMap Tree.Place.node? = preorderAll slots) :
    (Tree.node kind slots span).places.filterMap Tree.Place.node? =
      (Tree.node kind slots span).preorder := by
  simp [Tree.places, Tree.preorder, h]

/-- The nodes at the places are those of the traversal, in its order. -/
theorem filterMap_node?_placesFrom (slots : List Child) (index : ℕ) :
    (placesFrom index slots).filterMap Tree.Place.node? = preorderAll slots := by
  induction slots using slots_induction generalizing index with
  | nil => rfl
  | tree kind children span slots ih ih' =>
      have hbelow : Tree.Place.node? ∘ Tree.Place.below index = Tree.Place.node? := rfl
      rw [placesFrom, List.filterMap_append, List.filterMap_map, hbelow,
        filterMap_node?_node (ih 0), ih', preorderAll]
  | token leaf slots ih | absent slots ih =>
      rw [placesFrom, List.filterMap_cons, Tree.Place.node?_mk, preorderAll, ← ih (index + 1)]
      rfl

/-- What an outline shows of a slot. -/
def label : Child → String
  | tree node => node.kind.name
  | token leaf => leaf.kind.text
  | absent => "None"

end Child

namespace Tree.Place

/-- The line of an outline for a place below a node at a depth. -/
def line (depth : ℕ) (place : Tree.Place) : Outline.Line :=
  ⟨depth + place.path.length, place.slot.label⟩

/-- A place has a line unless its slot is empty and empty slots are not shown. -/
def isShown (showAbsent : Bool) (place : Tree.Place) : Bool := showAbsent || place.slot.isPresent

theorem isShown_of_isPresent {showAbsent : Bool} {place : Tree.Place}
    (h : place.slot.isPresent = true) : place.isShown showAbsent = true := by
  rw [isShown, h, Bool.or_true]

theorem line_comp_below (depth index : ℕ) : line depth ∘ below index = line (depth + 1) := by
  funext place
  simp [line, below, Nat.add_right_comm, Nat.add_assoc]

end Tree.Place

namespace Child

open Tree.Place (isShown line isShown_of_isPresent)

variable {showAbsent : Bool} {slots : List Child}

theorem outlineLines_node {kind : NodeKind} {span : Span} {depth : ℕ}
    (h : outlineLines showAbsent (depth + 1) slots =
      ((placesFrom 0 slots).filter (isShown showAbsent)).map (line depth)) :
    (Tree.node kind slots span).outlineLines showAbsent depth =
      ((Tree.node kind slots span).places.filter (isShown showAbsent)).map (line depth) := by
  rw [Tree.outlineLines, h, Tree.places, List.filter_cons_of_pos (isShown_of_isPresent rfl)]
  rfl

/-- The lines of slots show their places, in order. -/
theorem outlineLines_eq_map_placesFrom (slots : List Child) (depth index : ℕ) :
    outlineLines showAbsent (depth + 1) slots =
      ((placesFrom index slots).filter (isShown showAbsent)).map (line depth) := by
  induction slots using slots_induction generalizing depth index with
  | nil => rfl
  | tree kind children span slots ih ih' =>
      have hshown : isShown showAbsent ∘ Tree.Place.below index = isShown showAbsent := rfl
      rw [placesFrom, outlineLines, List.filter_append, List.map_append, List.filter_map,
        List.map_map, hshown, Tree.Place.line_comp_below, outlineLines_node (ih _ 0),
        ih' _ (index + 1)]
  | token leaf slots ih =>
      rw [outlineLines, ih _ (index + 1), placesFrom,
        List.filter_cons_of_pos (isShown_of_isPresent rfl)]
      rfl
  | absent slots ih =>
      cases showAbsent with
      | false => exact ih _ (index + 1)
      | true =>
          rw [outlineLines, if_pos rfl, ih _ (index + 1), placesFrom, List.filter_cons_of_pos rfl]
          rfl

end Child

/-! ### The order of a traversal -/

namespace Tree

/-- The places that have a line in an outline. -/
def shownPlaces (showAbsent : Bool) (tree : Tree) : List Place :=
  tree.places.filter (Place.isShown showAbsent)

theorem pairwise_places (tree : Tree) : tree.places.Pairwise (· < ·) := by
  cases tree
  exact Child.pairwise_places_node (Child.pairwise_placesFrom _ 0)

/-- The places of a tree are the ways down from its root. -/
theorem mem_places_iff {tree : Tree} {place : Place} :
    place ∈ tree.places ↔ Child.at? place.path (.tree tree) = some place.slot :=
  @Child.mem_places_iff (.tree tree) place

theorem filterMap_node?_places (tree : Tree) :
    tree.places.filterMap Place.node? = tree.preorder := by
  cases tree
  exact Child.filterMap_node?_node (Child.filterMap_node?_placesFrom _ 0)

/-- Nodes are always shown. -/
theorem filterMap_node?_shownPlaces (showAbsent : Bool) (tree : Tree) :
    (tree.shownPlaces showAbsent).filterMap Place.node? = tree.preorder := by
  rw [← filterMap_node?_places, shownPlaces, List.filterMap_filter]
  refine List.filterMap_congr fun place _ => ?_
  obtain ⟨path, slot⟩ := place
  cases slot with
  | absent => simp
  | _ => rw [if_pos (Place.isShown_of_isPresent rfl)]

theorem outlineLines_eq_map_places (showAbsent : Bool) (tree : Tree) :
    tree.outlineLines showAbsent 0 = (tree.shownPlaces showAbsent).map (Place.line 0) := by
  cases tree
  exact Child.outlineLines_node (Child.outlineLines_eq_map_placesFrom _ 0 0)

/-- **A walk comes by every node of a tree once.**  It answers with the nodes of the traversal,
parents before what is below them and siblings in order, and then with nothing.  These are the nodes
at the places of the tree, one for each way down that leads to a node.  The lines of an outline show
the same places in the same order, each behind the spaces of its levels. -/
theorem answer_walk_eq (tree : Tree) :
    (∀ count, tree.walk.answer count = tree.preorder[count]?) ∧
      tree.topdown = tree.preorder ∧
      tree.preorder = tree :: tree.subtrees.flatMap preorder ∧
      tree.nodeCount = tree.preorder.length ∧
      (tree.places.Pairwise (· < ·) ∧
        (∀ place : Place, place ∈ tree.places ↔
          Child.at? place.path (.tree tree) = some place.slot) ∧
        tree.places.filterMap Place.node? = tree.preorder) ∧
      ∀ style : Outline.Style,
        (tree.shownPlaces style.showAbsent).filterMap Place.node? = tree.preorder ∧
          tree.outline style = String.ofList ((tree.shownPlaces style.showAbsent).flatMap
            fun place => List.replicate (place.path.length * style.indentWidth) ' ' ++
              place.slot.label.toList ++ ['\n']) := by
  have htopdown := topdown_eq_preorder tree
  refine ⟨?walk, htopdown, preorder_eq tree, ?count, ?places, ?outline⟩
  case walk =>
    intro count
    rw [Walk.answer_eq, ← Walk.toList_eq, ← topdown, htopdown]
  case count => rw [nodeCount, htopdown]
  case places =>
    exact ⟨pairwise_places tree, fun place => mem_places_iff, filterMap_node?_places tree⟩
  case outline =>
    intro style
    refine ⟨filterMap_node?_shownPlaces _ tree, ?_⟩
    have hline (place : Place) : (place.line 0).render style.indentWidth =
        List.replicate (place.path.length * style.indentWidth) ' ' ++ place.slot.label.toList ++
          ['\n'] := by
      rw [Place.line, Nat.zero_add, Outline.Line.render]
    rw [outline, outlineLines_eq_map_places, List.flatMap_map]
    simp only [hline]

end Tree

end GrammarCatalog
