/-
**Empty slots.**

A slot is empty where an optional part was not written.  The layout of a node tells where that may
be, and what would stand there; so the slots of a node are found again from those that are not
empty, and what is found does not depend on spans.

Main definitions:

* `GrammarCatalog.Tree.unplaced`, `GrammarCatalog.Child.unplaced` — a node and a slot without their
  spans;
* `GrammarCatalog.Child.isSolid` — a slot with a token, or with a node that has slots;
* `GrammarCatalog.NodeKind.place` — the slots of a node, from those that are not empty.

Main results:

* `GrammarCatalog.Layout.isSolid_of_isPresent`, `GrammarCatalog.Layout.exists_isPresent` — which
  slots are solid, and which nodes have slots that are not empty;
* `GrammarCatalog.Layout.place_filter` — **the layout of a node determines its empty slots**.
-/

import GrammarCatalog.Proofs.Tree.Layout

set_option relaxedAutoImplicit false
set_option autoImplicit false

namespace GrammarCatalog

/-! ### Trees without spans -/

mutual

/-- The node without its spans: all that is in it covers nothing at the start of the text. -/
def Tree.unplaced : Tree → Tree
  | .node kind children _ => .node kind (Child.unplacedAll children) Span.origin

/-- The slots without their spans. -/
def Child.unplacedAll : List Child → List Child
  | [] => []
  | .tree node :: children => .tree node.unplaced :: Child.unplacedAll children
  | .token leaf :: children => .token ⟨leaf.kind, Span.origin⟩ :: Child.unplacedAll children
  | .absent :: children => .absent :: Child.unplacedAll children

end

namespace Child

/-- The slot without its spans. -/
def unplaced : Child → Child
  | tree node => tree node.unplaced
  | token leaf => token ⟨leaf.kind, Span.origin⟩
  | absent => absent

@[simp] theorem unplaced_tree (node : Tree) : (tree node).unplaced = tree node.unplaced := rfl

@[simp] theorem unplaced_token (leaf : Token) :
    (token leaf).unplaced = token ⟨leaf.kind, Span.origin⟩ := rfl

@[simp] theorem unplaced_absent : absent.unplaced = absent := rfl

theorem unplacedAll_eq_map (children : List Child) :
    unplacedAll children = children.map unplaced := by
  induction children with
  | nil => rfl
  | cons child children ih => cases child <;> simp [unplacedAll, ih]

end Child

theorem Tree.unplaced_node (kind : NodeKind) (children : List Child) (span : Span) :
    (Tree.node kind children span).unplaced =
      .node kind (children.map Child.unplaced) Span.origin := by
  rw [unplaced, Child.unplacedAll_eq_map]

@[simp] theorem Tree.kind_unplaced (node : Tree) : node.unplaced.kind = node.kind := by
  cases node
  rw [unplaced_node, kind_node, kind_node]

@[simp] theorem Child.isToken_unplaced (suits : TokenKind → Bool) (slot : Child) :
    slot.unplaced.isToken suits = slot.isToken suits := by
  cases slot <;> rfl

@[simp] theorem Child.isNode_unplaced (kind : NodeKind) (slot : Child) :
    slot.unplaced.isNode kind = slot.isNode kind := by
  cases slot <;> simp [isNode]

/-! ### Solid slots -/

/-- A kind of node that may have no slots. -/
def NodeKind.mayBeEmpty : NodeKind → Bool
  | start | expansion => true
  | _ => false

/-- A kind of node that may have an empty slot. -/
def NodeKind.mayHaveEmpty : NodeKind → Bool
  | rule | term | alternative | expr | importing => true
  | _ => false

namespace Child

variable {slot : Child} {suits : TokenKind → Bool} {kind : NodeKind}

/-- A slot that is not empty. -/
def isPresent : Child → Bool
  | absent => false
  | _ => true

/-- A slot with a token, or with a node that has slots. -/
def isSolid : Child → Bool
  | tree node => !node.kind.mayBeEmpty
  | token _ => true
  | absent => false

/-- A slot of a class that has no empty slots in it. -/
theorem isPresent_of_suits {suits : Child → Bool} (habsent : suits .absent = false)
    (h : suits slot = true) : slot.isPresent = true := by
  cases slot with
  | absent => exact absurd h (by simp [habsent])
  | _ => rfl

theorem isPresent_of_isSolid (h : slot.isSolid = true) : slot.isPresent = true := by
  cases slot <;> first | rfl | contradiction

end Child

/-- Only alternatives hold nodes that may have no slots. -/
theorem NodeKind.mayBeEmpty_of_mem_held {kind other : NodeKind} (h : other ∈ kind.held)
    (hkind : kind ≠ .alternative) : other.mayBeEmpty = false := by
  revert other
  cases kind <;> simp [held, mayBeEmpty] at hkind ⊢

namespace Layout

variable {kind : NodeKind} {slots : List Child}

open Child

/-- In nodes of all kinds but one, all slots are solid that are not empty. -/
theorem isSolid_of_isPresent (h : Layout kind slots) (hkind : kind ≠ .alternative) :
    ∀ slot ∈ slots, slot.isPresent = true → slot.isSolid = true := by
  intro slot hslot hpresent
  cases slot with
  | absent => contradiction
  | token leaf => rfl
  | tree node => simp [isSolid, NodeKind.mayBeEmpty_of_mem_held (h.kind_mem_held hslot) hkind]

/-- In nodes of most kinds no slot is empty. -/
theorem isPresent_of_mem (h : Layout kind slots) (hkind : kind.mayHaveEmpty = false) :
    ∀ slot ∈ slots, slot.isPresent = true := by
  cases h with
  | rule | term | alternative | operated | counted | importing => contradiction
  | start hslots => exact fun slot hslot => isPresent_of_suits rfl (hslots slot hslot)
  | expansion hslots => exact fun slot hslot => isPresent_of_suits rfl (hslots slot hslot)
  | expansions _ hslots => exact fun slot hslot => isPresent_of_suits rfl (hslots slot hslot)
  | templateParams _ hslots | path _ hslots | declare _ hslots =>
      exact fun slot hslot => isPresent_of_suits rfl (hslots slot hslot)
  | maybe hbody | ignore hbody | override hbody | extend hbody =>
      exact List.forall_mem_singleton.2 (isPresent_of_suits rfl hbody)
  | range hlow hhigh =>
      exact List.forall_mem_cons.2 ⟨isPresent_of_suits rfl hlow,
        List.forall_mem_singleton.2 (isPresent_of_suits rfl hhigh)⟩
  | templateUsage hfirst _ hslots | multiImport hfirst _ hslots | relativePath hfirst _ hslots =>
      exact List.forall_mem_cons.2 ⟨isPresent_of_suits rfl hfirst,
        fun slot hslot => isPresent_of_suits rfl (hslots slot hslot)⟩

theorem ne_nil (h : Layout kind slots) (hkind : kind.mayBeEmpty = false) : slots ≠ [] := by
  cases h with
  | start | expansion => contradiction
  | templateParams hne | expansions hne | path hne | declare hne => exact hne
  | _ => exact List.cons_ne_nil _ _

/-- A node has a slot that is not empty, unless its kind may have no slots. -/
theorem exists_isPresent (h : Layout kind slots) (hkind : kind.mayBeEmpty = false) :
    ∃ slot ∈ slots, slot.isPresent = true := by
  cases hempty : kind.mayHaveEmpty with
  | false =>
      obtain ⟨slot, hslot⟩ := List.exists_mem_of_ne_nil _ (h.ne_nil hkind)
      exact ⟨slot, hslot, h.isPresent_of_mem hempty slot hslot⟩
  | true =>
      cases h with
      | rule hfirst | term hfirst | alternative hfirst | operated hfirst | counted hfirst
      | importing hfirst => exact ⟨_, List.mem_cons_self, isPresent_of_suits rfl hfirst⟩
      | _ => contradiction

end Layout

/-! ### Empty slots -/

namespace Child

variable {suits : Child → Bool} {more : List Child → List Child} {slot : Child} {slots : List Child}

/-- A slot of a class in front of others: the first of the slots that are not empty is in it if it
is of the class, and otherwise it is empty. -/
def fill (suits : Child → Bool) (more : List Child → List Child) : List Child → List Child
  | slot :: slots => if suits slot then slot :: more slots else absent :: more (slot :: slots)
  | [] => absent :: more []

theorem fill_map_unplaced (hsuits : ∀ slot, suits slot.unplaced = suits slot)
    (hmore : ∀ slots, more (slots.map unplaced) = (more slots).map unplaced) (slots : List Child) :
    fill suits more (slots.map unplaced) = (fill suits more slots).map unplaced := by
  cases slots with
  | nil => simpa [fill] using hmore []
  | cons slot slots =>
      by_cases h : suits slot = true
      · simp [fill, hsuits, h, hmore]
      · simp [fill, hsuits, h, ← hmore]

/-- A slot is found again, empty or not, if nothing behind it is of its class. -/
theorem fill_filter (hslot : slot.isOptional suits = true)
    (hslots : ∀ other ∈ slots, suits other = false) :
    fill suits more ((slot :: slots).filter isPresent) =
      slot :: more (slots.filter isPresent) := by
  by_cases hpresent : slot.isPresent = true
  · have hsuits : suits slot = true := by cases slot <;> first | contradiction | exact hslot
    rw [List.filter_cons_of_pos hpresent, fill, if_pos hsuits]
  · obtain rfl : slot = .absent := by cases slot <;> first | rfl | contradiction
    rw [List.filter_cons_of_neg hpresent]
    cases hfilter : slots.filter isPresent with
    | nil => rfl
    | cons other others =>
        have hmem : other ∈ slots := (List.mem_filter.1 (hfilter ▸ List.mem_cons_self)).1
        simp [fill, hslots other hmem]

theorem isNode_eq_false_of_isNode {kind other : NodeKind} (h : slot.isNode kind = true)
    (hne : kind ≠ other) : slot.isNode other = false := by
  cases slot with
  | tree node =>
      obtain rfl : node.kind = kind := by simpa [isNode] using h
      simpa [isNode] using hne
  | _ => rfl

/-- A last token is found again, or that there is none. -/
theorem fill_last {suits : TokenKind → Bool} (h : slot.isOptional (isToken suits) = true) :
    fill (isToken suits) id ([slot].filter isPresent) = [slot] :=
  fill_filter h (List.forall_mem_nil _)

/-- A token in front of a last node is found again, or that there is none. -/
theorem fill_beforeNode {suits : TokenKind → Bool} {body : Child} {kind : NodeKind}
    (h : slot.isOptional (isToken suits) = true) (hbody : body.isNode kind = true) :
    fill (isToken suits) id ([slot, body].filter isPresent) = [slot, body] := by
  have hnot : body.isToken suits = false := by
    cases body <;> first | rfl | contradiction
  rw [fill_filter h (List.forall_mem_singleton.2 hnot), id,
    List.filter_cons_of_pos (isPresent_of_suits rfl hbody), List.filter_nil]

end Child

/-- The slots of a node, from those that are not empty. -/
def NodeKind.place : NodeKind → List Child → List Child
  | rule, name :: slots =>
      name :: Child.fill (Child.isNode .templateParams)
        (Child.fill (Child.isToken TokenKind.isNumber) id) slots
  | term, name :: slots => name :: Child.fill (Child.isToken TokenKind.isNumber) id slots
  | alternative, items :: slots => items :: Child.fill (Child.isToken TokenKind.isRule) id slots
  | expr, operand :: operator :: slots =>
      if operator.isToken TokenKind.isNumber then
        operand :: operator :: Child.fill (Child.isToken TokenKind.isNumber) id slots
      else operand :: operator :: slots
  | importing, path :: slots => path :: Child.fill (Child.isToken TokenKind.isName) id slots
  | _, slots => slots

namespace NodeKind

variable {kind : NodeKind}

theorem place_eq_self (hkind : kind.mayHaveEmpty = false) (slots : List Child) :
    kind.place slots = slots := by
  cases kind <;> first | rfl | contradiction

/-- Slots are found without looking at spans. -/
theorem place_map_unplaced (kind : NodeKind) (slots : List Child) :
    kind.place (slots.map Child.unplaced) = (kind.place slots).map Child.unplaced := by
  have hlast (suits : TokenKind → Bool) (slots : List Child) :
      Child.fill (Child.isToken suits) id (slots.map Child.unplaced) =
        (Child.fill (Child.isToken suits) id slots).map Child.unplaced :=
    Child.fill_map_unplaced (Child.isToken_unplaced suits) (fun _ => by rw [id, id]) slots
  have hparams (slots : List Child) :=
    Child.fill_map_unplaced (Child.isNode_unplaced .templateParams) (hlast TokenKind.isNumber) slots
  cases hempty : kind.mayHaveEmpty with
  | false => rw [place_eq_self hempty, place_eq_self hempty]
  | true =>
      match kind, slots with
      | rule, name :: slots => simp [place, hparams]
      | term, name :: slots | alternative, name :: slots | importing, name :: slots =>
          simp [place, hlast]
      | expr, operand :: operator :: slots =>
          by_cases h : operator.isToken TokenKind.isNumber = true
          · simp [place, h, hlast]
          · simp [place, h]
      | rule, [] | term, [] | alternative, [] | importing, [] | expr, [] | expr, [_] => rfl

end NodeKind

/-- **The layout of a node determines its empty slots.** -/
theorem Layout.place_filter {kind : NodeKind} {slots : List Child} (h : Layout kind slots) :
    kind.place (slots.filter Child.isPresent) = slots := by
  have hfirst {suits : Child → Bool} (habsent : suits .absent = false) {slot : Child}
      (hslot : suits slot = true) (slots : List Child) :
      (slot :: slots).filter Child.isPresent = slot :: slots.filter Child.isPresent :=
    List.filter_cons_of_pos (Child.isPresent_of_suits habsent hslot)
  cases hempty : kind.mayHaveEmpty with
  | false =>
      rw [NodeKind.place_eq_self hempty, List.filter_eq_self]
      exact h.isPresent_of_mem hempty
  | true =>
      cases h with
      | @rule name params priority body hname hparams hpriority hbody =>
          have hbehind : ∀ slot ∈ [priority, body], slot.isNode .templateParams = false := by
            refine List.forall_mem_cons.2 ⟨?_, List.forall_mem_singleton.2 ?_⟩
            · cases priority <;> first | rfl | contradiction
            · exact Child.isNode_eq_false_of_isNode hbody (by decide)
          rw [hfirst rfl hname, NodeKind.place, Child.fill_filter hparams hbehind,
            Child.fill_beforeNode hpriority hbody]
      | term hname hpriority hbody =>
          rw [hfirst rfl hname, NodeKind.place, Child.fill_beforeNode hpriority hbody]
      | alternative hitems htarget =>
          rw [hfirst rfl hitems, NodeKind.place, Child.fill_last htarget]
      | importing hpath htarget =>
          rw [hfirst rfl hpath, NodeKind.place, Child.fill_last htarget]
      | @operated operand operator hoperand hoperator =>
          have hnumber : operator.isToken TokenKind.isNumber ≠ true := by
            cases operator with
            | token leaf =>
                revert hoperator
                cases hkind : leaf.kind <;>
                  simp [Child.isToken, hkind, TokenKind.isOperator, TokenKind.isNumber]
            | _ => contradiction
          rw [hfirst rfl hoperand, hfirst rfl hoperator, NodeKind.place, if_neg hnumber,
            List.filter_nil]
      | counted hoperand hcount hupper =>
          rw [hfirst rfl hoperand, hfirst rfl hcount, NodeKind.place, if_pos hcount,
            Child.fill_last hupper]
      | _ => contradiction

end GrammarCatalog
