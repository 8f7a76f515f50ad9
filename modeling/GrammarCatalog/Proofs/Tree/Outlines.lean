/-
**Outlines determine trees.**

An outline shows what stands in a tree but not where, and empty slots may be left out.  Nor does a
line say whether it shows a node or a token, and a rule may have the name of a kind of node.  Still,
the outline of the tree of a text determines the tree up to its spans.  The text of an outline falls
into lines in one way, because no token is written with a line feed in it or a space in front.  The
lines of a slot are one and deeper ones, and lines of tokens are told from lines of nodes by the
deeper ones: only whole grammars and the items of an alternative are nodes that may have no slots,
and in its place in an alternative there is always such a node.

Main definitions:

* `GrammarCatalog.Outline.Legible` — the texts that lines show;
* `GrammarCatalog.Child.Readable` — nodes are laid out, and tokens are read back as written;
* `GrammarCatalog.Tree.Determined` — the lines of a node tell it from all others.

Main results:

* `GrammarCatalog.Outline.Line.flatMap_render_injective` — the text of an outline determines its
  lines;
* `GrammarCatalog.Child.outlineLines_cons_inj` — the lines of a slot are told from those behind it;
* `GrammarCatalog.Layout.map_unplaced_eq` — the lines of the slots of a node determine the slots;
* `GrammarCatalog.Tree.outline_eq_iff` — **the outline determines the tree** up to its spans.
-/

import GrammarCatalog.Tree.Outline
import GrammarCatalog.Proofs.Token.Rescanned
import GrammarCatalog.Proofs.Tree.Declarations
import GrammarCatalog.Proofs.Tree.EmptySlots

set_option relaxedAutoImplicit false
set_option autoImplicit false

namespace GrammarCatalog

/-! ### The text of lines -/

namespace Outline

/-- A text without a line feed in it that begins with something visible. -/
def Legible (text : String) : Prop :=
  '\n' ∉ text.toList ∧ ∃ c cs, text.toList = c :: cs ∧ c ≠ ' '

theorem legible_absentText : Legible absentText := ⟨by decide, _, _, rfl, by decide⟩

theorem legible_name (kind : NodeKind) : Legible kind.name := by
  cases kind <;> exact ⟨by decide, _, _, rfl, by decide⟩

namespace Line

/-- A line that does not show an empty slot. -/
def isFull (line : Line) : Bool := line.text != absentText

variable {width : ℕ} {line other : Line} {lines others : List Line} {rest rest' : List Char}

/-- A line is told from what follows it. -/
theorem render_append_inj (hwidth : 1 ≤ width) (h : Legible line.text)
    (hother : Legible other.text)
    (heq : line.render width ++ rest = other.render width ++ rest') :
    line = other ∧ rest = rest' := by
  obtain ⟨hbreak, c, cs, htext, hc⟩ := h
  obtain ⟨hbreak', c', cs', htext', hc'⟩ := hother
  simp only [render, List.append_assoc] at heq
  -- the indent ends where the text begins, and the text ends at the first line feed
  obtain ⟨hindent, heq⟩ := Scan.append_inj_of_class (p := (· == ' ')) heq
    (by simp [List.mem_replicate]) (by simp [List.mem_replicate]) (by simp [htext, hc])
    (by simp [htext', hc'])
  obtain ⟨heqText, heq⟩ := Scan.append_inj_of_class (p := (· != '\n')) heq
    (fun d hd => by simpa using ne_of_mem_of_not_mem hd hbreak)
    (fun d hd => by simpa using ne_of_mem_of_not_mem hd hbreak') (by simp) (by simp)
  have hdepth : line.depth = other.depth := by
    have hlength := congrArg List.length hindent
    rw [List.length_replicate, List.length_replicate] at hlength
    exact Nat.eq_of_mul_eq_mul_right hwidth hlength
  refine ⟨?_, by simpa using heq⟩
  obtain ⟨depth, text⟩ := line
  obtain ⟨depth', text'⟩ := other
  rw [mk.injEq]
  exact ⟨hdepth, String.toList_inj.1 heqText⟩

/-- **The text of an outline determines its lines.** -/
theorem flatMap_render_injective (hwidth : 1 ≤ width) (h : ∀ line ∈ lines, Legible line.text)
    (hothers : ∀ line ∈ others, Legible line.text)
    (heq : lines.flatMap (render width) = others.flatMap (render width)) : lines = others := by
  induction lines generalizing others with
  | nil =>
      cases others with
      | nil => rfl
      | cons other others => simp [render] at heq
  | cons line lines ih =>
      cases others with
      | nil => simp [render] at heq
      | cons other others =>
          rw [List.forall_mem_cons] at h hothers
          rw [List.flatMap_cons, List.flatMap_cons] at heq
          obtain ⟨rfl, hmore⟩ := render_append_inj hwidth h.1 hothers.1 heq
          rw [ih h.2 hothers.2 hmore]

end Line

end Outline

/-! ### The lines of slots -/

namespace Child

variable {showAbsent : Bool} {depth : ℕ} {slot other : Child} {slots others : List Child}

theorem outlineLines_cons (slot : Child) (slots : List Child) :
    outlineLines showAbsent depth (slot :: slots) =
      outlineLines showAbsent depth [slot] ++ outlineLines showAbsent depth slots := by
  cases slot with
  | absent => cases showAbsent <;> rfl
  | _ => simp [outlineLines]

theorem outlineLines_tree (node : Tree) :
    outlineLines showAbsent depth [tree node] = node.outlineLines showAbsent depth := by
  simp [outlineLines]

theorem outlineLines_token (leaf : Token) :
    outlineLines showAbsent depth [token leaf] = [⟨depth, leaf.kind.text⟩] := rfl

/-- Without lines for them, empty slots do not show. -/
theorem outlineLines_filter (slots : List Child) :
    outlineLines false depth (slots.filter isPresent) = outlineLines false depth slots := by
  induction slots with
  | nil => rfl
  | cons slot slots ih =>
      cases slot with
      | absent => exact ih
      | _ => rw [List.filter_cons_of_pos rfl, outlineLines_cons, ih, ← outlineLines_cons]

/-- Spans do not show. -/
theorem outlineLines_unplaced (slots : List Child) :
    outlineLines showAbsent depth (slots.map unplaced) = outlineLines showAbsent depth slots := by
  induction slots using slots_induction generalizing depth with
  | nil => rfl
  | tree kind children span slots ih ih' =>
      simp [Tree.unplaced_node, outlineLines, Tree.outlineLines, ih, ih']
  | token leaf slots ih => simp [outlineLines, ih]
  | absent slots ih => simp [outlineLines, ih]

theorem le_depth_of_mem_outlineLines {line : Outline.Line}
    (h : line ∈ outlineLines false depth slots) : depth ≤ line.depth := by
  induction slots using slots_induction generalizing depth with
  | nil => simp [outlineLines] at h
  | tree kind children span slots ih ih' =>
      simp only [outlineLines, Tree.outlineLines, List.cons_append, List.mem_cons,
        List.mem_append] at h
      rcases h with rfl | hchild | hslot
      · exact le_rfl
      · exact (Nat.le_succ depth).trans (ih hchild)
      · exact ih' hslot
  | token leaf slots ih =>
      rcases List.mem_cons.1 h with rfl | hslot
      · exact le_rfl
      · exact ih hslot
  | absent slots ih => exact ih h

/-- The lines of a slot are one at the depth of the slot and deeper ones. -/
theorem outlineLines_eq_cons (h : slot.isPresent = true) (depth : ℕ) :
    ∃ text deeper, outlineLines false depth [slot] = ⟨depth, text⟩ :: deeper ∧
      ∀ line ∈ deeper, depth < line.depth := by
  cases slot with
  | absent => contradiction
  | token leaf => exact ⟨_, [], rfl, List.forall_mem_nil _⟩
  | tree node =>
      obtain ⟨kind, children, span⟩ := node
      rw [outlineLines_tree, Tree.outlineLines]
      exact ⟨_, _, rfl, fun line hline => le_depth_of_mem_outlineLines hline⟩

theorem depth_of_head_outlineLines {line : Outline.Line}
    (h : line ∈ (outlineLines false depth slots).head?) : line.depth = depth := by
  induction slots with
  | nil => simp [outlineLines] at h
  | cons slot slots ih =>
      cases slot with
      | absent => exact ih h
      | token leaf =>
          obtain rfl := Option.mem_some.1 h
          rfl
      | tree node =>
          obtain ⟨kind, children, span⟩ := node
          obtain rfl := Option.mem_some.1 h
          rfl

/-- The lines of a slot are told from those of the slots behind it. -/
theorem outlineLines_cons_inj (h : slot.isPresent = true) (hother : other.isPresent = true)
    (heq : outlineLines false depth (slot :: slots) = outlineLines false depth (other :: others)) :
    outlineLines false depth [slot] = outlineLines false depth [other] ∧
      outlineLines false depth slots = outlineLines false depth others := by
  obtain ⟨text, deeper, hlines, hdeeper⟩ := outlineLines_eq_cons h depth
  obtain ⟨text', deeper', hlines', hdeeper'⟩ := outlineLines_eq_cons hother depth
  rw [outlineLines_cons, outlineLines_cons other, hlines, hlines', List.cons_append,
    List.cons_append, List.cons.injEq] at heq
  -- the deeper lines of a slot end where the slot behind it begins
  have hshallow {slots : List Child} :
      ∀ line ∈ (outlineLines false depth slots).head?, decide (depth < line.depth) = false :=
    fun line hline => by simp [depth_of_head_outlineLines hline]
  obtain ⟨rfl, hslots⟩ := Scan.append_inj_of_class heq.2 (by simpa using hdeeper)
    (by simpa using hdeeper') hshallow hshallow
  exact ⟨by rw [hlines, hlines', heq.1], hslots⟩

end Child

/-! ### Slots that can be read back -/

theorem NodeKind.name_ne_absentText (kind : NodeKind) : kind.name ≠ Outline.absentText := by
  cases kind <;> decide

/-- No token is written like an empty slot. -/
theorem TokenKind.Rescans.text_ne_absentText {kind : TokenKind} (h : kind.Rescans) :
    kind.text ≠ Outline.absentText := by
  intro htext
  obtain ⟨c, cs, hkind, hscan⟩ := h
  obtain ⟨rfl, rfl⟩ : c = 'N' ∧ cs = ['o', 'n', 'e'] := by
    rw [htext] at hkind
    simpa [Outline.absentText, eq_comm] using hkind
  obtain rfl : kind = .malformed (.invalidName "None") := (congrArg Lexeme.kind hscan).symm
  contradiction

theorem TokenKind.isWritten_of_isContent {kind : TokenKind} (h : kind.isContent = true) :
    kind.isWritten = true := by
  revert h
  cases kind <;> simp [isContent, isWritten]

namespace Child

variable {showAbsent : Bool} {depth : ℕ} {slot other : Child} {slots others : List Child}

/-- A slot whose nodes are laid out and whose tokens are read back from how they are written. -/
structure Readable (slot : Child) : Prop where
  /-- All nodes have the layouts of their kinds. -/
  laidOut : Everywhere Tree.LaidOut [slot]
  /-- All tokens are read back. -/
  rescans : ∀ leaf ∈ slot.leaves, leaf.kind.Rescans

namespace Readable

variable {kind : NodeKind} {span : Span}

theorem layout (h : Readable (.tree (.node kind slots span))) : Layout kind slots :=
  (everywhere_node.1 h.laidOut).1

theorem token {leaf : Token} (h : Readable (.token leaf)) : leaf.kind.Rescans :=
  h.rescans leaf (List.mem_singleton.2 rfl)

theorem of_mem (h : Readable (.tree (.node kind slots span))) (hslot : slot ∈ slots) :
    slot.Readable :=
  ⟨(everywhere_node.1 h.laidOut).2.of_mem hslot,
    fun leaf hleaf => h.rescans leaf (mem_leavesAll.2 ⟨slot, hslot, hleaf⟩)⟩

end Readable

/-- The lines that show something are the same, whether empty slots have lines or not. -/
theorem filter_outlineLines (h : ∀ slot ∈ slots, slot.Readable) :
    (outlineLines showAbsent depth slots).filter Outline.Line.isFull =
      outlineLines false depth slots := by
  induction slots using slots_induction generalizing depth with
  | nil => rfl
  | tree kind children span slots ih ih' =>
      obtain ⟨hnode, hslots⟩ := List.forall_mem_cons.1 h
      have hfull : Outline.Line.isFull ⟨depth, kind.name⟩ = true := by
        simp [Outline.Line.isFull, kind.name_ne_absentText]
      simp only [outlineLines, Tree.outlineLines, List.cons_append, List.filter_append,
        List.filter_cons_of_pos hfull, ih fun _ => hnode.of_mem, ih' hslots]
  | token leaf slots ih =>
      obtain ⟨hleaf, hslots⟩ := List.forall_mem_cons.1 h
      have hfull : Outline.Line.isFull ⟨depth, leaf.kind.text⟩ = true := by
        simpa [Outline.Line.isFull] using hleaf.token.text_ne_absentText
      rw [outlineLines, outlineLines, List.filter_cons_of_pos hfull, ih hslots]
  | absent slots ih =>
      have hslots := (List.forall_mem_cons.1 h).2
      cases showAbsent with
      | false => exact ih hslots
      | true => simp [outlineLines, Outline.Line.isFull, ih hslots]

/-- All lines are legible. -/
theorem legible_of_mem_outlineLines (h : ∀ slot ∈ slots, slot.Readable) {line : Outline.Line}
    (hline : line ∈ outlineLines showAbsent depth slots) : Outline.Legible line.text := by
  induction slots using slots_induction generalizing depth with
  | nil => simp [outlineLines] at hline
  | tree kind children span slots ih ih' =>
      obtain ⟨hnode, hslots⟩ := List.forall_mem_cons.1 h
      simp only [outlineLines, Tree.outlineLines, List.cons_append, List.mem_cons,
        List.mem_append] at hline
      rcases hline with rfl | hchild | hslot
      · exact Outline.legible_name kind
      · exact ih (fun _ => hnode.of_mem) hchild
      · exact ih' hslots hslot
  | token leaf slots ih =>
      obtain ⟨hleaf, hslots⟩ := List.forall_mem_cons.1 h
      rcases List.mem_cons.1 hline with rfl | hslot
      · exact hleaf.token.legible
      · exact ih hslots hslot
  | absent slots ih =>
      have hslots := (List.forall_mem_cons.1 h).2
      cases showAbsent with
      | false => exact ih hslots hline
      | true =>
          rcases List.mem_cons.1 hline with rfl | hslot
          · exact Outline.legible_absentText
          · exact ih hslots hslot

end Child

/-! ### Lines determine slots -/

/-- The lines of a node tell it from all other nodes that can be read back. -/
def Tree.Determined (node : Tree) : Prop :=
  ∀ depth other, (Child.tree other).Readable →
    node.outlineLines false depth = other.outlineLines false depth → node.unplaced = other.unplaced

namespace Child

variable {depth : ℕ} {slot other : Child} {slots others : List Child} {kind : NodeKind}

theorem outlineLines_ne_nil (h : ∃ slot ∈ slots, slot.isPresent = true) (depth : ℕ) :
    outlineLines false depth slots ≠ [] := by
  obtain ⟨slot, hslot, hpresent⟩ := h
  induction slots with
  | nil => contradiction
  | cons other slots ih =>
      rw [outlineLines_cons]
      rcases List.mem_cons.1 hslot with rfl | hslot
      · obtain ⟨text, deeper, hlines, -⟩ := outlineLines_eq_cons hpresent depth
        simp [hlines]
      · simp [ih hslot]

/-- A node that has slots does not have the line of a token. -/
theorem outlineLines_ne_token {node : Tree} {leaf : Token} (h : (tree node).Readable)
    (hsolid : (tree node).isSolid = true) (depth : ℕ) :
    outlineLines false depth [tree node] ≠ outlineLines false depth [token leaf] := by
  obtain ⟨kind, slots, span⟩ := node
  have hkind : kind.mayBeEmpty = false := by simpa [isSolid] using hsolid
  have hslots := outlineLines_ne_nil (h.layout.exists_isPresent hkind) (depth + 1)
  rw [outlineLines_tree, outlineLines_token, Tree.outlineLines]
  simp [hslots]

/-- The lines of a solid slot determine it, if they determine the node in it. -/
theorem unplaced_eq_of_outlineLines (hslot : slot.Readable) (hother : other.Readable)
    (hsolid : slot.isSolid = true) (hsolid' : other.isSolid = true)
    (hnode : ∀ node, slot = tree node → node.Determined)
    (h : outlineLines false depth [slot] = outlineLines false depth [other]) :
    slot.unplaced = other.unplaced := by
  cases slot with
  | absent => contradiction
  | token leaf =>
      cases other with
      | absent => contradiction
      | tree node => exact absurd h.symm (outlineLines_ne_token hother hsolid' depth)
      | token leaf' =>
          have htext : leaf.kind.text = leaf'.kind.text := by simpa [outlineLines] using h
          simp [hslot.token.text_injective hother.token htext]
  | tree node =>
      cases other with
      | absent => contradiction
      | token leaf => exact absurd h (outlineLines_ne_token hslot hsolid depth)
      | tree node' =>
          rw [outlineLines_tree, outlineLines_tree] at h
          simp [hnode node rfl depth node' hother h]

/-- The lines of solid slots determine them, if they determine the nodes in them. -/
theorem map_unplaced_eq_of_isSolid (hslots : ∀ slot ∈ slots, slot.Readable)
    (hothers : ∀ slot ∈ others, slot.Readable) (hsolid : ∀ slot ∈ slots, slot.isSolid = true)
    (hsolid' : ∀ slot ∈ others, slot.isSolid = true)
    (hnodes : ∀ node, tree node ∈ slots → node.Determined)
    (h : outlineLines false depth slots = outlineLines false depth others) :
    slots.map unplaced = others.map unplaced := by
  induction slots generalizing others with
  | nil =>
      cases others with
      | nil => rfl
      | cons other others =>
          have hpresent := isPresent_of_isSolid (hsolid' other List.mem_cons_self)
          exact absurd h.symm (outlineLines_ne_nil ⟨other, List.mem_cons_self, hpresent⟩ depth)
  | cons slot slots ih =>
      have hpresent := isPresent_of_isSolid (hsolid slot List.mem_cons_self)
      cases others with
      | nil => exact absurd h (outlineLines_ne_nil ⟨slot, List.mem_cons_self, hpresent⟩ depth)
      | cons other others =>
          rw [List.forall_mem_cons] at hslots hothers hsolid hsolid'
          obtain ⟨hfirst, hmore⟩ :=
            outlineLines_cons_inj hpresent (isPresent_of_isSolid hsolid'.1) h
          rw [List.map_cons, List.map_cons,
            unplaced_eq_of_outlineLines hslots.1 hothers.1 hsolid.1 hsolid'.1
              (fun node heq => hnodes node (heq ▸ List.mem_cons_self)) hfirst,
            ih hslots.2 hothers.2 hsolid.2 hsolid'.2
              (fun node hnode => hnodes node (List.mem_cons_of_mem _ hnode)) hmore]

/-- The lines of slots determine those that are not empty, if those are solid. -/
theorem map_unplaced_filter_eq (hslots : ∀ slot ∈ slots, slot.Readable)
    (hothers : ∀ slot ∈ others, slot.Readable)
    (hsolid : ∀ slot ∈ slots, slot.isPresent = true → slot.isSolid = true)
    (hsolid' : ∀ slot ∈ others, slot.isPresent = true → slot.isSolid = true)
    (hnodes : ∀ node, tree node ∈ slots → node.Determined)
    (h : outlineLines false depth slots = outlineLines false depth others) :
    (slots.filter isPresent).map unplaced = (others.filter isPresent).map unplaced := by
  have hmem {slots : List Child} {slot : Child} (hslot : slot ∈ slots.filter isPresent) :
      slot ∈ slots ∧ slot.isPresent = true := List.mem_filter.1 hslot
  rw [← outlineLines_filter, ← outlineLines_filter others] at h
  exact map_unplaced_eq_of_isSolid (fun slot hslot => hslots slot (hmem hslot).1)
    (fun slot hslot => hothers slot (hmem hslot).1)
    (fun slot hslot => hsolid slot (hmem hslot).1 (hmem hslot).2)
    (fun slot hslot => hsolid' slot (hmem hslot).1 (hmem hslot).2)
    (fun node hnode => hnodes node (hmem hnode).1) h

end Child

namespace Layout

variable {depth : ℕ} {kind : NodeKind} {slots others : List Child}

open Child

/-- The lines of an alternative determine its slots: the first is a node in every alternative, with
or without items. -/
theorem alternative_filter_eq (h : Layout .alternative slots) (h' : Layout .alternative others)
    (hslots : ∀ slot ∈ slots, slot.Readable) (hothers : ∀ slot ∈ others, slot.Readable)
    (hnodes : ∀ node, tree node ∈ slots → node.Determined)
    (hlines : outlineLines false depth slots = outlineLines false depth others) :
    (slots.filter isPresent).map unplaced = (others.filter isPresent).map unplaced := by
  cases h with
  | @alternative items target hitems htarget =>
      cases h' with
      | @alternative items' target' hitems' htarget' =>
          have hpresent := isPresent_of_suits rfl hitems
          have hpresent' := isPresent_of_suits rfl hitems'
          obtain ⟨hfirst, hlast⟩ := outlineLines_cons_inj hpresent hpresent' hlines
          rw [List.forall_mem_cons] at hslots hothers
          have hitem : items.unplaced = items'.unplaced := by
            cases items with
            | tree node =>
                cases items' with
                | tree node' =>
                    rw [outlineLines_tree, outlineLines_tree] at hfirst
                    simp [hnodes node List.mem_cons_self depth node' hothers.1 hfirst]
                | _ => contradiction
            | _ => contradiction
          have hsolid {target : Child} (h : target.isOptional (isToken TokenKind.isRule) = true) :
              ∀ slot ∈ [target], slot.isPresent = true → slot.isSolid = true :=
            List.forall_mem_singleton.2 fun hpresent => by
              cases target <;> first | rfl | contradiction
          have htargets := map_unplaced_filter_eq hslots.2 hothers.2 (hsolid htarget)
            (hsolid htarget') (fun node hnode => hnodes node (List.mem_cons_of_mem _ hnode)) hlast
          rw [List.filter_cons_of_pos hpresent, List.filter_cons_of_pos hpresent', List.map_cons,
            List.map_cons, hitem, htargets]

/-- The lines of the slots of a node determine the slots. -/
theorem map_unplaced_eq (h : Layout kind slots) (h' : Layout kind others)
    (hslots : ∀ slot ∈ slots, slot.Readable) (hothers : ∀ slot ∈ others, slot.Readable)
    (hnodes : ∀ node, tree node ∈ slots → node.Determined)
    (hlines : outlineLines false depth slots = outlineLines false depth others) :
    slots.map unplaced = others.map unplaced := by
  have hfull : (slots.filter isPresent).map unplaced = (others.filter isPresent).map unplaced := by
    by_cases hkind : kind = .alternative
    · subst hkind
      exact alternative_filter_eq h h' hslots hothers hnodes hlines
    · exact map_unplaced_filter_eq hslots hothers (h.isSolid_of_isPresent hkind)
        (h'.isSolid_of_isPresent hkind) hnodes hlines
  calc slots.map unplaced
      = (kind.place (slots.filter isPresent)).map unplaced := by rw [h.place_filter]
    _ = (kind.place (others.filter isPresent)).map unplaced := by
        rw [← NodeKind.place_map_unplaced, hfull, NodeKind.place_map_unplaced]
    _ = others.map unplaced := by rw [h'.place_filter]

end Layout

/-- Lines determine the nodes that can be read back. -/
theorem Child.determined_of_readable {slots : List Child} (h : ∀ slot ∈ slots, slot.Readable) :
    ∀ node, tree node ∈ slots → node.Determined := by
  induction slots using slots_induction with
  | nil => simp
  | tree kind children span slots ih ih' =>
      rw [List.forall_mem_cons] at h
      intro node hnode
      rcases List.mem_cons.1 hnode with heq | hnode
      · obtain rfl : node = .node kind children span := tree.inj heq
        rintro depth ⟨kind', children', span'⟩ hother hlines
        rw [Tree.outlineLines, Tree.outlineLines, List.cons.injEq] at hlines
        obtain rfl : kind = kind' := NodeKind.name_injective (by simpa using hlines.1)
        rw [Tree.unplaced_node, Tree.unplaced_node,
          h.1.layout.map_unplaced_eq hother.layout (fun _ => h.1.of_mem) (fun _ => hother.of_mem)
            (ih fun _ => h.1.of_mem) hlines.2]
      · exact ih' h.2 node hnode
  | token leaf slots ih | absent slots ih =>
      intro node hnode
      rcases List.mem_cons.1 hnode with heq | hnode
      · contradiction
      · exact ih (List.forall_mem_cons.1 h).2 node hnode

/-! ### Outlines determine trees -/

namespace Tree

variable {source source' : String} {tree tree' : Tree} {style : Outline.Style}

/-- The tree of a text can be read back. -/
theorem readable_ofSource (h : ofSource source = .ok tree) : (Child.tree tree).Readable := by
  refine ⟨laidOut_ofSource h, fun leaf hleaf => ?_⟩
  by_cases hdot : leaf.kind = .punctuation .dot
  · rw [hdot]
    exact TokenKind.rescans_punctuation .dot
  · obtain ⟨hmem, hcontent⟩ := List.mem_filter.1 (mem_contents_of_mem_leaves h hleaf hdot)
    exact Token.rescans_of_mem hmem (TokenKind.isWritten_of_isContent hcontent)

/-- Spans do not show in an outline. -/
theorem outline_unplaced (style : Outline.Style) (tree : Tree) :
    tree.unplaced.outline style = tree.outline style := by
  have hlines (node : Tree) : node.outlineLines style.showAbsent 0 =
      Child.outlineLines style.showAbsent 0 [.tree node] := (Child.outlineLines_tree node).symm
  rw [outline, outline, hlines, hlines, ← Child.outlineLines_unplaced [.tree tree]]
  rfl

/-- **The outline determines the tree** of a text up to its spans, whether empty slots have lines or
not. -/
theorem outline_eq_iff (h : ofSource source = .ok tree) (h' : ofSource source' = .ok tree')
    (hwidth : 1 ≤ style.indentWidth) :
    tree.outline style = tree'.outline style ↔ tree.unplaced = tree'.unplaced := by
  constructor
  · intro heq
    have hslots := List.forall_mem_singleton.2 (readable_ofSource h)
    have hslots' := List.forall_mem_singleton.2 (readable_ofSource h')
    have hlines : Child.outlineLines style.showAbsent 0 [.tree tree] =
        Child.outlineLines style.showAbsent 0 [.tree tree'] := by
      refine Outline.Line.flatMap_render_injective hwidth
        (fun line hline => Child.legible_of_mem_outlineLines hslots hline)
        (fun line hline => Child.legible_of_mem_outlineLines hslots' hline) ?_
      rw [Child.outlineLines_tree, Child.outlineLines_tree]
      exact String.ofList_injective heq
    have hfull := congrArg (List.filter Outline.Line.isFull) hlines
    rw [Child.filter_outlineLines hslots, Child.filter_outlineLines hslots',
      Child.outlineLines_tree, Child.outlineLines_tree] at hfull
    exact Child.determined_of_readable hslots tree (List.mem_singleton.2 rfl) 0 tree'
      (readable_ofSource h') hfull
  · intro heq
    rw [← outline_unplaced, heq, outline_unplaced]

set_option maxRecDepth 4000 in
/-- Spaces change the spans of a tree and nothing else. -/
theorem outline_eq_respaced :
    ∃ tree tree', ofSource "a:b" = .ok tree ∧ ofSource "a : b" = .ok tree' ∧
      tree.span ≠ tree'.span ∧ tree.outline ⟨1, true⟩ = tree'.outline ⟨1, true⟩ ∧
      tree.unplaced = tree'.unplaced := by
  let grammar (body whole : Span) : Tree :=
    .node .start
      [.tree (.node .rule
        [.token ⟨.rule "a", ⟨0, 1, 1, 1⟩⟩, .absent, .absent,
          .tree (.node .expansions
            [.tree (.node .alternative
              [.tree (.node .expansion [.token ⟨.rule "b", body⟩] body), .absent] body)] body)]
        whole)]
      whole
  have h : ofSource "a:b" = .ok (grammar ⟨2, 3, 1, 3⟩ ⟨0, 3, 1, 1⟩) := by cbv
  have h' : ofSource "a : b" = .ok (grammar ⟨4, 5, 1, 5⟩ ⟨0, 5, 1, 1⟩) := by cbv
  have houtline : (grammar ⟨2, 3, 1, 3⟩ ⟨0, 3, 1, 1⟩).outline ⟨1, true⟩ =
      (grammar ⟨4, 5, 1, 5⟩ ⟨0, 5, 1, 1⟩).outline ⟨1, true⟩ := rfl
  exact ⟨_, _, h, h', by decide, houtline, (outline_eq_iff h h' (by decide)).1 houtline⟩

end Tree

end GrammarCatalog
