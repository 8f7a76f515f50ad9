/-
**The nesting of spans.**

The span of a node begins where its first token does and ends where its last token does, and the
spans of its slots follow each other within it.  Tokens that a phrase drops leave gaps, so there is
order and containment, but no tiling.  A node of no token at all, such as an empty alternative,
stands where the next token begins.

Main definitions:

* `GrammarCatalog.Span.StandsIn` — a span covers a part of a text, at the place where it begins;
* `GrammarCatalog.Span.Ascend` — spans of parts of a text that follow each other between two
  offsets;
* `GrammarCatalog.Tree.Nests` — the spans of the slots of a node follow each other within its own.

Main results:

* `GrammarCatalog.TokenStream.ascends_ofSource` — the tokens of a text follow each other;
* `GrammarCatalog.Phrase.Derives.nested` — the slots that a phrase makes follow each other between
  its two ends, and all nodes in them nest;
* `GrammarCatalog.Tree.span_nesting` — **the spans of the tree of a text are places of the text,
  and nest**.
-/

import GrammarCatalog.Proofs.Text.Places
import GrammarCatalog.Proofs.Tree.Layout

set_option relaxedAutoImplicit false
set_option autoImplicit false

namespace GrammarCatalog

open Text (byteLength)

/-! ### Spans in a text -/

namespace Span

/-- A span covers a part of a text, at the place where the part begins. -/
def StandsIn (source : List Char) (span : Span) : Prop :=
  ∃ before text after, before ++ (text ++ after) = source ∧
    span = (Text.Cursor.origin.advance before).spanOf text

variable {source : List Char} {left right span : Span}

theorem StandsIn.start_le_stop (h : span.StandsIn source) : span.start ≤ span.stop := by
  obtain ⟨before, text, after, -, rfl⟩ := h
  simp [Text.Cursor.spanOf]

theorem StandsIn.stop_le (h : span.StandsIn source) : span.stop ≤ byteLength source := by
  obtain ⟨before, text, after, rfl, rfl⟩ := h
  simp [Text.Cursor.spanOf, Text.Cursor.origin]

theorem StandsIn.collapse (h : span.StandsIn source) : span.collapse.StandsIn source := by
  obtain ⟨before, text, after, hsource, rfl⟩ := h
  exact ⟨before, [], text ++ after, hsource, rfl⟩

/-- What two parts of a text cover together is a part of it. -/
theorem StandsIn.merge (hleft : left.StandsIn source) (hright : right.StandsIn source) :
    (left.merge right).StandsIn source := by
  by_cases hle : right.stop ≤ left.stop
  · have hmerge : left.merge right = left := by simp [Span.merge, hle]
    rwa [hmerge]
  obtain ⟨before, text, after, hsource, rfl⟩ := hleft
  obtain ⟨before', text', after', hsource', rfl⟩ := hright
  -- the part on the left ends before the one on the right does
  have hprefix : before ++ text <+: before' ++ text' := by
    have h : before ++ text <+: source := ⟨after, by simpa using hsource⟩
    have h' : before' ++ text' <+: source := ⟨after', by simpa using hsource'⟩
    rcases List.prefix_or_prefix_of_prefix h h' with h | ⟨more, hmore⟩
    · exact h
    · have hbytes := congrArg byteLength hmore
      simp [Text.Cursor.spanOf] at hbytes hle
      omega
  obtain ⟨more, hmore⟩ := hprefix
  refine ⟨before, text ++ more, after', ?_, ?_⟩
  · rw [← hsource', ← List.append_assoc before', ← hmore]
    simp
  · have hbytes := congrArg byteLength hmore
    simp [Text.Cursor.spanOf, Span.merge] at hbytes hle ⊢
    omega

theorem merge_merge_of_le {mid : Span} (h : mid.stop ≤ right.stop) :
    (left.merge mid).merge right = left.merge right := by
  rw [merge_assoc]
  simp [Span.merge, h]

/-! ### Spans that follow each other -/

/-- Spans of parts of a text that follow each other between two offsets. -/
def Ascend (source : List Char) : ℕ → List Span → ℕ → Prop
  | low, [], high => low ≤ high
  | low, span :: spans, high =>
      low ≤ span.start ∧ span.StandsIn source ∧ Ascend source span.stop spans high

variable {low low' mid mid' high high' : ℕ} {spans others : List Span}

@[simp] theorem ascend_nil : Ascend source low [] high ↔ low ≤ high := Iff.rfl

namespace Ascend

theorem le (h : Ascend source low spans high) : low ≤ high := by
  induction spans generalizing low with
  | nil => exact h
  | cons span spans ih =>
      obtain ⟨hlow, hspan, hspans⟩ := h
      exact (hlow.trans hspan.start_le_stop).trans (ih hspans)

theorem mono (h : Ascend source low spans high) (hlow : low' ≤ low) (hhigh : high ≤ high') :
    Ascend source low' spans high' := by
  induction spans generalizing low low' with
  | nil => exact (hlow.trans h).trans hhigh
  | cons span spans ih =>
      obtain ⟨hstart, hspan, hspans⟩ := h
      exact ⟨hlow.trans hstart, hspan, ih hspans le_rfl⟩

theorem append (h : Ascend source low spans mid) (hmid : mid ≤ mid')
    (hothers : Ascend source mid' others high) : Ascend source low (spans ++ others) high := by
  induction spans generalizing low with
  | nil => exact hothers.mono (Nat.le_trans h hmid) le_rfl
  | cons span spans ih =>
      obtain ⟨hstart, hspan, hspans⟩ := h
      exact ⟨hstart, hspan, ih hspans⟩

/-- The last span ends where all of them may end. -/
theorem concat (h : Ascend source low (spans ++ [span]) high) :
    span.StandsIn source ∧ span.stop ≤ high ∧ Ascend source low (spans ++ [span]) span.stop := by
  induction spans generalizing low with
  | nil => exact ⟨h.2.1, h.2.2, h.1, h.2.1, le_rfl⟩
  | cons other spans ih =>
      obtain ⟨hstart, hother, hspans⟩ := h
      obtain ⟨hspan, hstop, hspans⟩ := ih hspans
      exact ⟨hspan, hstop, hstart, hother, hspans⟩

theorem forall_mem (h : Ascend source low spans high) :
    ∀ span ∈ spans, low ≤ span.start ∧ span.StandsIn source ∧ span.stop ≤ high := by
  induction spans generalizing low with
  | nil => simp
  | cons span spans ih =>
      obtain ⟨hstart, hspan, hspans⟩ := h
      refine List.forall_mem_cons.2 ⟨⟨hstart, hspan, hspans.le⟩, ?_⟩
      intro other hother
      obtain ⟨hlow, hother⟩ := ih hspans other hother
      exact ⟨(hstart.trans hspan.start_le_stop).trans hlow, hother⟩

/-- The end of an earlier span is not behind the start of a later one. -/
theorem pairwise (h : Ascend source low spans high) :
    spans.Pairwise fun earlier later => earlier.stop ≤ later.start := by
  induction spans generalizing low with
  | nil => exact List.Pairwise.nil
  | cons span spans ih =>
      obtain ⟨-, -, hspans⟩ := h
      exact List.pairwise_cons.2 ⟨fun other hother => (hspans.forall_mem other hother).1, ih hspans⟩

/-- Between the first span and the last, a span adds nothing to what they cover. -/
theorem merge_merge {first mid last : Span} (h : Ascend source low [mid, last] high) :
    (first.merge mid).merge last = first.merge last := by
  obtain ⟨-, -, hmid, hlast, -⟩ := h
  exact merge_merge_of_le (hmid.trans hlast.start_le_stop)

theorem sublist (h : Ascend source low spans high) (hsub : others.Sublist spans) :
    Ascend source low others high := by
  induction hsub generalizing low with
  | slnil => exact h
  | cons span _ ih =>
      obtain ⟨hstart, hspan, hspans⟩ := h
      exact ih (hspans.mono (hstart.trans hspan.start_le_stop) le_rfl)
  | cons_cons span _ ih =>
      obtain ⟨hstart, hspan, hspans⟩ := h
      exact ⟨hstart, hspan, ih hspans⟩

/-- A span merged with those that follow it ends where they may end. -/
theorem foldl_merge (h : Ascend source low spans high) (hspan : span.StandsIn source)
    (hlow : low ≤ span.stop) (hhigh : span.stop ≤ high) :
    (spans.foldl Span.merge span).StandsIn source ∧
      (spans.foldl Span.merge span).start = span.start ∧
      (spans.foldl Span.merge span).stop ≤ high ∧
      Ascend source low spans (spans.foldl Span.merge span).stop := by
  induction spans generalizing low span with
  | nil => exact ⟨hspan, rfl, hhigh, hlow⟩
  | cons other spans ih =>
      obtain ⟨hstart, hother, hspans⟩ := h
      obtain ⟨hstands, hfold, hstop, hascend⟩ := ih hspans (hspan.merge hother)
        (Nat.le_max_left _ _) (Nat.max_le.2 ⟨hspans.le, hhigh⟩)
      exact ⟨hstands, hfold, hstop, hstart, hother, hascend⟩

end Ascend

end Span

/-! ### Tokens in order -/

namespace TokenStream

open GrammarCatalog.Span (Ascend)

/-- The offset at which the current token of a stream begins. -/
def offset (stream : TokenStream) : ℕ := stream.current.span.start

/-- The tokens of a stream stand in a text, one behind the other. -/
def Ascends (source : List Char) (stream : TokenStream) : Prop :=
  Ascend source stream.offset (stream.toList.map Token.span) (byteLength source)

theorem ascends_cons {source : List Char} {t : Token} {stream : TokenStream} :
    (stream.cons t).Ascends source ↔
      t.span.StandsIn source ∧ t.span.stop ≤ stream.offset ∧ stream.Ascends source := by
  constructor
  · rintro ⟨-, ht, hstop, hrest⟩
    exact ⟨ht, hstop, le_rfl, hrest⟩
  · rintro ⟨ht, hstop, -, hrest⟩
    exact ⟨le_rfl, ht, hstop, hrest⟩

end TokenStream

namespace Scan

open GrammarCatalog.Span (Ascend)

variable {scan after : Scan} {token : Token}

/-- A token begins behind the place where the step to it began, and the scan goes on behind it. -/
theorem Step.offset_le (h : Step scan (token, after)) :
    scan.cursor.offset ≤ token.span.start ∧ token.span.stop = after.cursor.offset := by
  obtain ⟨gap, text, -, -, hspan, hafter⟩ := h.divides
  rw [hspan, hafter, Text.Cursor.advance_append]
  simp [Text.Cursor.spanOf]

/-- The tokens from here to the end of the text stand in it, one behind the other. -/
theorem ascend_tokens {source : List Char} (scan : Scan) (h : scan.StandsIn source) :
    Ascend source scan.cursor.offset (scan.tokens.map Token.span) (byteLength source) := by
  refine tokens_induction (motive := fun scan tokens => scan.StandsIn source →
    Ascend source scan.cursor.offset (tokens.map Token.span) (byteLength source)) ?_ ?_ scan h
  · intro scan token after hstep _ hscan
    have htoken : token.span.StandsIn source := (hscan.step hstep).1
    exact ⟨hstep.offset_le.1, htoken, htoken.stop_le⟩
  · intro scan token after hstep _ ih hscan
    obtain ⟨htoken, hafter⟩ := hscan.step hstep
    exact ⟨hstep.offset_le.1, htoken, (ih hafter).mono hstep.offset_le.2.le le_rfl⟩

end Scan

/-- The tokens of a text follow each other. -/
theorem TokenStream.ascends_ofSource (source : String) :
    (TokenStream.ofSource source).Ascends source.toList := by
  have hsub : ((ofSource source).toList.map Token.span).Sublist
      ((Scan.ofSource source).tokens.map Token.span) := by
    rw [toList_ofSource]
    exact List.filter_sublist.map _
  have hall := (Scan.ofSource source).ascend_tokens (Scan.standsIn_ofSource source)
  obtain ⟨-, hcurrent, hahead⟩ := hall.sublist hsub
  exact ⟨le_rfl, hcurrent, hahead⟩

/-! ### Slots in order -/

namespace Child

/-- The spans of the nodes and the tokens in a list of slots. -/
def spans : List Child → List Span
  | [] => []
  | tree node :: slots => node.span :: spans slots
  | token leaf :: slots => leaf.span :: spans slots
  | absent :: slots => spans slots

@[simp] theorem spans_nil : spans [] = [] := rfl

@[simp] theorem spans_tree_cons (node : Tree) (slots : List Child) :
    spans (tree node :: slots) = node.span :: spans slots := rfl

@[simp] theorem spans_token_cons (leaf : Token) (slots : List Child) :
    spans (token leaf :: slots) = leaf.span :: spans slots := rfl

@[simp] theorem spans_absent_cons (slots : List Child) : spans (absent :: slots) = spans slots :=
  rfl

theorem spans_cons (slot : Child) (slots : List Child) :
    spans (slot :: slots) = spans [slot] ++ spans slots := by
  cases slot <;> rfl

theorem spans_append (slots others : List Child) :
    spans (slots ++ others) = spans slots ++ spans others := by
  induction slots with
  | nil => rfl
  | cons slot slots ih =>
      rw [List.cons_append, spans_cons, ih, spans_cons slot slots, List.append_assoc]

theorem getLast?_spans_concat (slots : List Child) (node : Tree) :
    (spans (slots ++ [tree node])).getLast? = some node.span := by
  simp [spans_append]

@[simp] theorem spans_map_token (leaves : List Token) :
    spans (leaves.map token) = leaves.map Token.span := by
  induction leaves with
  | nil => rfl
  | cons leaf leaves ih => simp [ih]

@[simp] theorem spans_map_tree (nodes : List Tree) :
    spans (nodes.map tree) = nodes.map Tree.span := by
  induction nodes with
  | nil => rfl
  | cons node nodes ih => simp [ih]

/-- Nothing adds nothing to a span that it is merged with. -/
theorem foldl_merge_span (span : Span) (slots : List Child) :
    slots.foldl (fun span slot => span.merge slot.span) span =
      (spans slots).foldl Span.merge span := by
  induction slots generalizing span with
  | nil => rfl
  | cons slot slots ih => cases slot <;> simp [ih] <;> rfl

end Child

/-- The spans of the slots of a node follow each other within its own. -/
def Tree.Nests (source : List Char) (node : Tree) : Prop :=
  node.span.StandsIn source ∧
    Span.Ascend source node.span.start (Child.spans node.children) node.span.stop

namespace Phrase

open GrammarCatalog.Span (Ascend)
open TokenStream (ascends_cons)

/-- The slots that a phrase makes follow each other between its two ends, and all nodes in them
nest. -/
structure Nested (source : List Char) (s r : TokenStream) (slots : List Child) : Prop where
  ascend : Ascend source s.offset (Child.spans slots) r.offset
  deep : Child.Everywhere (Tree.Nests source) slots
  rest : r.Ascends source

variable {source : List Char} {n : ℕ} {s m r : TokenStream} {t : Token} {slot : Child}
  {slots : List Child} {kind : NodeKind} {first last span : Span}

/-- A node nests if the spans of its slots follow each other within its own. -/
theorem nested_node (hspan : span.StandsIn source) (hs : s.offset ≤ span.start)
    (hslots : Ascend source span.start (Child.spans slots) span.stop) (hr : span.stop ≤ r.offset)
    (hdeep : Child.Everywhere (Tree.Nests source) slots) (hrest : r.Ascends source) :
    Nested source s r [.tree (.node kind slots span)] :=
  ⟨⟨hs, hspan, hr⟩, Child.everywhere_node.2 ⟨⟨hspan, hslots⟩, hdeep⟩, hrest⟩

namespace Nested

theorem nil (h : r.Ascends source) : Nested source r r [] := ⟨le_rfl, by simp, h⟩

theorem absent (h : r.Ascends source) : Nested source r r [.absent] := ⟨le_rfl, by simp, h⟩

theorem token (h : (r.cons t).Ascends source) : Nested source (r.cons t) r [.token t] := by
  obtain ⟨ht, hstop, hr⟩ := ascends_cons.1 h
  exact ⟨⟨le_rfl, ht, hstop⟩, by simp, hr⟩

theorem cons (h : Nested source s m [slot]) (hslots : Nested source m r slots) :
    Nested source s r (slot :: slots) := by
  refine ⟨?_, h.deep.cons hslots.deep, hslots.rest⟩
  rw [Child.spans_cons]
  exact h.ascend.append le_rfl hslots.ascend

/-- A token in front may be dropped. -/
theorem behind (h : Nested source s r slots) (hs : (s.cons t).Ascends source) :
    Nested source (s.cons t) r slots := by
  obtain ⟨ht, hstop, -⟩ := ascends_cons.1 hs
  exact ⟨h.ascend.mono (ht.start_le_stop.trans hstop) le_rfl, h.deep, h.rest⟩

/-- A token at the end may be dropped. -/
theorem before (h : Nested source s (r.cons t) slots) : Nested source s r slots := by
  obtain ⟨ht, hstop, hr⟩ := ascends_cons.1 h.rest
  exact ⟨h.ascend.mono le_rfl (ht.start_le_stop.trans hstop), h.deep, hr⟩

/-- The slots of a node stand where the node does. -/
theorem inside (h : Nested source s r [.tree (.node kind slots span)]) :
    Nested source s r slots := by
  obtain ⟨⟨-, hslots⟩, hdeep⟩ := Child.everywhere_node.1 h.deep
  exact ⟨hslots.mono h.ascend.1 h.ascend.2.2, hdeep, h.rest⟩

/-- A node that ends with a token of no slot. -/
theorem closed (h : Nested source s (r.cons t) slots) (hfirst : first.StandsIn source)
    (hs : s.offset ≤ first.start)
    (hslots : Ascend source first.start (Child.spans slots) t.span.start)
    (hstop : first.stop ≤ t.span.start) :
    Nested source s r [.tree (.node kind slots (first.merge t.span))] := by
  obtain ⟨ht, htstop, hr⟩ := ascends_cons.1 h.rest
  have hle := ht.start_le_stop
  refine nested_node (hfirst.merge ht) hs (hslots.mono le_rfl ?_) ?_ h.deep hr
  · exact hle.trans (Nat.le_max_left _ _)
  · exact Nat.max_le.2 ⟨htstop, (hstop.trans hle).trans htstop⟩

/-- A node that ends with its last slot. -/
theorem ended (h : Nested source s r slots) (hspans : (Child.spans slots).getLast? = some last)
    (hfirst : first.StandsIn source) (hs : s.offset ≤ first.start)
    (hslots : Ascend source first.start (Child.spans slots) r.offset)
    (hstop : first.stop ≤ r.offset) :
    Nested source s r [.tree (.node kind slots (first.merge last))] := by
  obtain ⟨front, hfront⟩ := List.getLast?_eq_some_iff.1 hspans
  rw [hfront] at hslots
  obtain ⟨hlast, hlaststop, hslots⟩ := hslots.concat
  rw [← hfront] at hslots
  exact nested_node (hfirst.merge hlast) hs (hslots.mono le_rfl (Nat.le_max_left _ _))
    (Nat.max_le.2 ⟨hlaststop, hstop⟩) h.deep h.rest

/-- A node from its first slot to its last. -/
theorem spanned (h : Nested source s r slots) (hfirst : (Child.spans slots).head? = some first)
    (hlast : (Child.spans slots).getLast? = some last) :
    Nested source s r [.tree (.node kind slots (first.merge last))] := by
  obtain ⟨others, hspans⟩ := List.head?_eq_some_iff.1 hfirst
  have hslots := h.ascend
  rw [hspans] at hslots
  obtain ⟨hs, hspan, hstop⟩ := hslots.forall_mem first List.mem_cons_self
  exact h.ended hlast hspan hs (hspans ▸ ⟨le_rfl, hslots.2⟩) hstop

/-- The node of a directive ends with its last slot. -/
theorem directed (h : Nested source s r slots) (hs : (s.cons t).Ascends source)
    (hspans : (Child.spans slots).getLast? = some last) :
    Nested source (s.cons t) r [.tree (.node kind slots (t.span.merge last))] := by
  obtain ⟨ht, hstop, -⟩ := ascends_cons.1 hs
  exact (h.behind hs).ended hspans ht le_rfl (h.behind hs).ascend (hstop.trans h.ascend.le)

/-- The items of an alternative, which starts where its first token does. -/
theorem items (h : Nested source s r slots) (hs : s.Ascends source) :
    Nested source s r [.tree (itemsNode s.current.span slots)] := by
  have hcurrent : s.current.span.collapse.StandsIn source := Span.StandsIn.collapse hs.2.1
  obtain ⟨hspan, hstart, hstop, hslots⟩ := h.ascend.foldl_merge hcurrent le_rfl h.ascend.le
  rw [itemsNode, Child.foldl_merge_span]
  refine nested_node hspan hstart.ge ?_ hstop h.deep h.rest
  exact hslots.mono hstart.le le_rfl

end Nested

/-- A list of names begins with the token that comes first. -/
theorem Derives.exists_eq_current_cons {separator : Punctuation} {suits : TokenKind → Bool}
    (h : Derives (.names separator suits) n s r slots) :
    ∃ others, slots = .token s.current :: others := by
  cases h with
  | lastName _ => exact ⟨[], rfl⟩
  | name _ _ _ => exact ⟨_, rfl⟩

/-- The span of the last of some names. -/
theorem getLast?_spans_names {names : List Token} (hne : names ≠ []) (default : Token) :
    (Child.spans (names.map .token)).getLast? = some (names.getLastD default).span := by
  rw [Child.spans_map_token, List.getLast?_map, List.getLastD_eq_getLast?,
    List.getLast?_eq_some_getLast hne]
  rfl

/-- An atom is a token or a node. -/
theorem spans_cons_of_isAtom (h : slot.isAtom = true) (slots : List Child) :
    Child.spans (slot :: slots) = slot.span :: Child.spans slots := by
  cases slot with
  | tree node => rfl
  | token leaf => rfl
  | absent => contradiction

/-- The slots that a phrase makes follow each other between its two ends, and all nodes in them
nest. -/
theorem Derives.nested {phrase : Phrase} (h : phrase.Derives n s r slots)
    (hs : s.Ascends source) : Nested source s r slots := by
  induction h with
  | token _ | lastName _ | lastDeclared _ => exact .token hs
  | range _ _ _ =>
      have hdots := (ascends_cons.1 hs).2.2
      have hhigh := (Nested.token (ascends_cons.1 hdots).2.2).behind hdots
      exact ((Nested.token hs).cons hhigh).spanned rfl rfl
  | usage _ _ _ _ ih =>
      obtain ⟨hname, hstop, hopening⟩ := ascends_cons.1 hs
      have harguments := (ih (ascends_cons.1 hopening).2.2).behind hopening
      have hslots := (Nested.token hs).cons harguments
      exact hslots.closed hname le_rfl hslots.ascend (hstop.trans harguments.ascend.le)
  | lastArgument _ ih | single _ ih | plain _ ih | lastAlternative _ ih | defines _ ih
  | lastLine _ ih => exact ih hs
  | argument _ _ _ ih ih' | alternative _ _ _ ih ih' | line _ _ _ ih ih' =>
      have h := ih hs
      exact h.before.cons (ih' (ascends_cons.1 h.rest).2.2)
  | @parens _ _ _ _ _ body _ _ _ ih =>
      obtain ⟨hopening, hstop, hs'⟩ := ascends_cons.1 hs
      obtain ⟨kind, slots, span⟩ := body
      have hslots := (ih hs').inside
      exact (hslots.behind hs).closed hopening le_rfl (hslots.behind hs).ascend
        (hstop.trans hslots.ascend.le)
  | brackets _ _ _ ih | params _ _ _ ih =>
      obtain ⟨hopening, hstop, hs'⟩ := ascends_cons.1 hs
      have hslots := ih hs'
      exact (hslots.behind hs).closed hopening le_rfl (hslots.behind hs).ascend
        (hstop.trans hslots.ascend.le)
  | operated h _ ih =>
      have hoperand := ih hs
      refine (hoperand.cons (.token hoperand.rest)).spanned ?_ ?_ <;>
        rw [spans_cons_of_isAtom h.admits] <;> rfl
  | counted h _ _ ih =>
      have hoperand := ih hs
      have htilde := hoperand.rest
      have hcount := Nested.token (ascends_cons.1 htilde).2.2
      have hslots := hoperand.cons ((hcount.behind htilde).cons (.absent hcount.rest))
      rw [countNode, Child.merge_span_absent]
      refine hslots.spanned ?_ ?_ <;> rw [spans_cons_of_isAtom h.admits] <;> rfl
  | countedUpTo h _ _ _ _ ih =>
      have hoperand := ih hs
      have htilde := hoperand.rest
      have hcount := Nested.token (ascends_cons.1 htilde).2.2
      have hdots := hcount.rest
      have hupper := (Nested.token (ascends_cons.1 hdots).2.2).behind hdots
      have hcounts := (hcount.behind htilde).cons hupper
      simp only [countNode, Child.span, hcounts.ascend.merge_merge]
      refine (hoperand.cons hcounts).spanned ?_ ?_ <;> rw [spans_cons_of_isAtom h.admits] <;> rfl
  | noItem | noLine => exact .nil hs
  | items _ _ ih ih' => exact (ih hs).cons (ih' (ih hs).rest)
  | unnamed _ ih =>
      have hitems := (ih hs).items hs
      have hslots := hitems.cons (.absent hitems.rest)
      obtain ⟨hlow, hspan, hhigh⟩ := hitems.ascend
      exact nested_node hspan hlow ⟨le_rfl, hspan, le_rfl⟩ hhigh hslots.deep hslots.rest
  | named _ _ _ ih =>
      have hitems := (ih hs).items hs
      have harrow := hitems.rest
      have htarget := (Nested.token (ascends_cons.1 harrow).2.2).behind harrow
      exact (hitems.cons htarget).spanned rfl rfl
  | @expansions _ _ _ _ alternatives h ih =>
      obtain ⟨hascend, hdeep, hrest⟩ := ih hs
      cases alternatives with
      | nil => exact absurd rfl (h.ne_nil rfl)
      | cons first others =>
          rw [Child.spans_map_tree] at hascend
          obtain ⟨hlow, hfirst, hothers⟩ := hascend
          obtain ⟨hspan, hstart, hstop, hslots⟩ := hothers.foldl_merge hfirst le_rfl hothers.le
          rw [List.foldl_map] at hspan hstart hstop hslots
          refine nested_node hspan (hlow.trans hstart.ge) ?_ hstop hdeep hrest
          rw [Child.spans_map_tree]
          exact ⟨hstart.le, hfirst, hslots⟩
  | name _ _ _ ih =>
      have hsign := (ascends_cons.1 hs).2.2
      exact (Nested.token hs).cons ((ih (ascends_cons.1 hsign).2.2).behind hsign)
  | noParams | noPriority => exact .absent hs
  | priority _ _ => exact (Nested.token (ascends_cons.1 hs).2.2).behind hs
  | rule _ _ _ _ _ ihparams ihpriority ihbody =>
      have hparams := ihparams (ascends_cons.1 hs).2.2
      have hpriority := ihpriority hparams.rest
      have hbody := ihbody (ascends_cons.1 hpriority.rest).2.2
      exact ((Nested.token hs).cons (hparams.cons (hpriority.before.cons hbody))).spanned rfl
        (Child.getLast?_spans_concat [_, _, _] _)
  | term _ _ _ _ ihpriority ihbody =>
      have hpriority := ihpriority (ascends_cons.1 hs).2.2
      have hbody := ihbody (ascends_cons.1 hpriority.rest).2.2
      exact ((Nested.token hs).cons (hpriority.before.cons hbody)).spanned rfl
        (Child.getLast?_spans_concat [_, _] _)
  | path h ih =>
      obtain ⟨others, hothers⟩ := h.exists_eq_current_cons
      refine (ih hs).spanned ?_ (getLast?_spans_names (by simpa using h.ne_nil rfl) _)
      rw [hothers]
      rfl
  | relativePath _ h ih =>
      have hnames := ih (ascends_cons.1 hs).2.2
      refine ((Nested.token hs).cons hnames).spanned rfl ?_
      rw [Child.spans_token_cons, List.getLast?_cons,
        getLast?_spans_names (by simpa using h.ne_nil rfl)]
      rfl
  | declared _ _ ih => exact (Nested.token hs).cons (ih (ascends_cons.1 hs).2.2)
  | ignore _ _ ih | override _ _ ih | extend _ _ ih =>
      exact (ih (ascends_cons.1 hs).2.2).directed hs rfl
  | importPath _ _ ih =>
      have hpath := ih (ascends_cons.1 hs).2.2
      exact (hpath.cons (.absent hpath.rest)).directed hs rfl
  | importAs _ _ _ _ ih =>
      have hpath := ih (ascends_cons.1 hs).2.2
      have harrow := hpath.rest
      have hslots := hpath.cons ((Nested.token (ascends_cons.1 harrow).2.2).behind harrow)
      rw [hslots.ascend.merge_merge]
      exact hslots.directed hs rfl
  | importNames _ _ _ _ _ ihpath ihnames =>
      obtain ⟨hdirective, hstop, hs'⟩ := ascends_cons.1 hs
      have hpath := ihpath hs'
      have hopening := hpath.rest
      have hslots := hpath.cons ((ihnames (ascends_cons.1 hopening).2.2).behind hopening)
      have hle := (hslots.ascend.forall_mem _ List.mem_cons_self).2.2
      rw [Span.merge_merge_of_le (hle.trans (ascends_cons.1 hslots.rest).1.start_le_stop)]
      exact (hslots.behind hs).closed hdirective le_rfl (hslots.behind hs).ascend
        (hstop.trans hslots.ascend.le)
  | @declare _ _ first _ _ _ _ _ ih =>
      refine (ih (ascends_cons.1 hs).2.2).directed hs ?_
      rw [getLast?_spans_names (by simp) first, List.getLastD_cons]
  | blankLine _ _ ih => exact (ih (ascends_cons.1 hs).2.2).behind hs

end Phrase

namespace Tree

variable {source : String} {tree node : Tree}

theorem nests_ofSource (h : ofSource source = .ok tree) :
    Child.Everywhere (Nests source.toList) [.tree tree] := by
  obtain ⟨trees, r, rfl, hderives, -⟩ := ofSource_eq_ok_iff.1 h
  obtain ⟨hascend, hdeep, hrest⟩ := hderives.nested (TokenStream.ascends_ofSource source)
  refine Child.everywhere_node.2 ⟨⟨⟨[], source.toList, [], by simp, ?_⟩, ?_⟩, hdeep⟩
  · simp [Text.Cursor.spanOf, Text.Cursor.origin]
  · exact hascend.mono (Nat.zero_le _) (hrest.2.1.start_le_stop.trans hrest.2.1.stop_le)

/-- **The spans of the tree of a text are places of the text, and nest.**  Every node covers a part
of the text, at the line and in the column where this begins; the nodes and the tokens in its slots
lie within the node, each one behind those before it. -/
theorem span_nesting (h : ofSource source = .ok tree) (hnode : node ∈ tree.preorder) :
    (∃ before text after, source.toList = before ++ (text ++ after) ∧
      node.span.start = byteLength before ∧
      node.span.stop = byteLength (before ++ text) ∧
      node.span.line = 1 + before.count '\n' ∧
      node.span.column = 1 + (Text.lastLine before).length) ∧
    (∀ span ∈ Child.spans node.children,
      node.span.start ≤ span.start ∧ span.stop ≤ node.span.stop) ∧
    (Child.spans node.children).Pairwise fun earlier later => earlier.stop ≤ later.start := by
  obtain ⟨⟨before, text, after, hsource, hspan⟩, hslots⟩ :=
    nests_ofSource h node (by simpa [Child.preorderAll] using hnode)
  refine ⟨⟨before, text, after, hsource.symm, ?_⟩, ?_, hslots.pairwise⟩
  · rw [hspan]
    refine ⟨?_, ?_, Text.Cursor.line_advance _ _, Text.Cursor.column_advance_origin before⟩
    · simp [Text.Cursor.spanOf, Text.Cursor.origin]
    · simp [Text.Cursor.spanOf, Text.Cursor.origin]
  · intro span hmem
    obtain ⟨hlow, -, hhigh⟩ := hslots.forall_mem span hmem
    exact ⟨hlow, hhigh⟩

set_option maxRecDepth 4000 in
/-- A group covers its parentheses, and an empty alternative in it stands between them. -/
theorem span_nesting_emptyGroup :
    ∃ tree node, ofSource "%ignore ()" = .ok tree ∧ node ∈ tree.preorder ∧
      node.span = ⟨8, 10, 1, 9⟩ ∧ Child.spans node.children = [⟨9, 9, 1, 10⟩] ∧
      ∀ span ∈ Child.spans node.children,
        node.span.start ≤ span.start ∧ span.stop ≤ node.span.stop := by
  let group : Tree :=
    .node .expansions
      [.tree (.node .alternative [.tree (.node .expansion [] ⟨9, 9, 1, 10⟩), .absent]
        ⟨9, 9, 1, 10⟩)] ⟨8, 10, 1, 9⟩
  have h : ofSource "%ignore ()" = .ok
      (.node .start
        [.tree (.node .ignore
          [.tree (.node .expansions
            [.tree (.node .alternative
              [.tree (.node .expansion [.tree group] ⟨8, 10, 1, 9⟩), .absent] ⟨8, 10, 1, 9⟩)]
            ⟨8, 10, 1, 9⟩)] ⟨0, 10, 1, 1⟩)]
        ⟨0, 10, 1, 1⟩) := by cbv
  refine ⟨_, group, h, ?inTree, rfl, rfl, (span_nesting h ?inTree).2.1⟩
  exact .tail _ (.tail _ (.tail _ (.tail _ (.tail _ (.head _)))))

end Tree

end GrammarCatalog
