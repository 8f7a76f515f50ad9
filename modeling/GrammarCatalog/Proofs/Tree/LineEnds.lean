/-
**Nodes at the ends of lines.**

A line break stands between statements, never inside one.  So a node that begins where a line break
does, such as an alternative without items at the end of a line, covers nothing of the text.

Main definitions:

* `GrammarCatalog.Span.EndsLine` — a span is empty and stands in front of a line feed.

Main results:

* `GrammarCatalog.Phrase.Nested.forall_between` — all nodes that a phrase makes stand between its
  two ends;
* `GrammarCatalog.Phrase.Derives.clearOf_lines` — in lines, a node that begins at a line break is
  empty;
* `GrammarCatalog.Tree.endsLine_of_newline` — so it is **in the tree of a text**.
-/

import GrammarCatalog.Proofs.MetaGrammar.Ends
import GrammarCatalog.Proofs.Token.Faithful
import GrammarCatalog.Proofs.Tree.Nesting

set_option relaxedAutoImplicit false
set_option autoImplicit false

namespace GrammarCatalog

open Text (byteLength)

/-! ### Line breaks -/

/-- A span is empty and stands in front of a line feed. -/
structure Span.EndsLine (source : List Char) (span : Span) : Prop where
  /-- Nothing is covered. -/
  stop_eq : span.stop = span.start
  /-- A line feed comes next. -/
  newline : ∃ before after, source = before ++ '\n' :: after ∧ span.start = byteLength before

/-- A line break covers a line feed, and what else is blank behind it. -/
theorem Token.exists_of_newline (source : String) :
    ∀ token ∈ ofSource source, token.kind = .newline → token.span.start < token.span.stop ∧
      ∃ before after, source.toList = before ++ '\n' :: after ∧
        token.span.start = byteLength before := by
  refine Scan.forall_mem_tokens ?_ (Scan.standsIn_ofSource source)
  intro scan token after hscan hstep
  refine ⟨fun hkind => ?_, (hscan.step hstep).2⟩
  obtain ⟨before, hsource, hcursor⟩ := hscan
  obtain ⟨gap, text, hrest, hspan, hfaithful⟩ := hstep.isFaithful
  have hread := hfaithful.readFrom
  rw [hkind] at hread
  obtain ⟨text, rfl⟩ := List.head?_eq_some_iff.1 hread.1
  constructor
  · have hsize := Char.utf8Size_pos '\n'
    simp [hspan, Text.Cursor.spanOf]
    omega
  · refine ⟨before ++ gap, text ++ after.rest, by simp [← hsource, ← hrest], ?_⟩
    simp [hspan, hcursor, Text.Cursor.spanOf, Text.Cursor.origin]

/-! ### Phrases -/

theorem Child.span_mem_spans {node : Tree} {slots : List Child} (h : .tree node ∈ slots) :
    node.span ∈ spans slots := by
  induction slots with
  | nil => contradiction
  | cons slot slots ih =>
      rw [spans_cons, List.mem_append]
      rcases List.mem_cons.1 h with rfl | h
      · exact Or.inl List.mem_cons_self
      · exact Or.inr (ih h)

namespace Phrase

open TokenStream (ascends_cons)

variable {source : List Char} {n : ℕ} {s r : TokenStream} {t : Token} {slots : List Child}
  {node : Tree}

/-- All nodes that a phrase makes stand between its two ends. -/
theorem Nested.forall_between (h : Nested source s r slots) :
    Child.Everywhere (fun node => s.offset ≤ node.span.start ∧ node.span.start ≤ node.span.stop ∧
      node.span.stop ≤ r.offset) slots := by
  refine h.deep.inherit ?_ ?_
  · intro node hnode hbetween child hchild
    obtain ⟨hlow, hstands, hhigh⟩ := hnode.2.forall_mem _ (Child.span_mem_spans hchild)
    have hle := hstands.start_le_stop
    omega
  · intro node hnode
    obtain ⟨hlow, hstands, hhigh⟩ := h.ascend.forall_mem _ (Child.span_mem_spans hnode)
    exact ⟨hlow, hstands.start_le_stop, hhigh⟩

/-- If a node begins at a line break of a stream, it is empty. -/
def ClearOf (s : TokenStream) (node : Tree) : Prop :=
  ∀ t ∈ s.toList, t.kind = .newline → node.span.start = t.span.start →
    node.span.stop = node.span.start

theorem ClearOf.cons (h : ClearOf s node) (ht : t.span.start < node.span.start) :
    ClearOf (s.cons t) node := by
  intro t' ht' hkind hstart
  rcases List.mem_cons.1 ht' with rfl | ht'
  · omega
  · exact h t' ht' hkind hstart

/-- There are no line breaks among tokens that end no statement. -/
theorem ClearOf.prepend {taken : List Token} (h : ClearOf r node)
    (htaken : ∀ t ∈ taken, t.kind.endsStatement = false) : ClearOf (r.prepend taken) node := by
  intro t ht hkind hstart
  rw [TokenStream.toList_prepend] at ht
  rcases List.mem_append.1 ht with ht | ht
  · have hends := htaken t ht
    simp [hkind, TokenKind.endsStatement] at hends
  · exact h t ht hkind hstart

/-- The tokens behind a statement do not begin before its end. -/
theorem Derives.clearOf_statement (h : Derives .statement n s r slots) (hs : s.Ascends source) :
    Child.Everywhere (ClearOf s) slots := by
  obtain ⟨taken, rfl, htaken⟩ := h.exists_unended
  have hnested := h.nested hs
  intro node hnode
  refine ClearOf.prepend ?_ htaken
  intro t ht _ hstart
  obtain ⟨-, hle, hstop⟩ := hnested.forall_between node hnode
  obtain ⟨hoffset, -⟩ := hnested.rest.forall_mem t.span (List.mem_map_of_mem ht)
  omega

/-- What is made of the tokens behind a line break stands behind it. -/
theorem Derives.clearOf_cons {phrase : Phrase} (h : phrase.Derives n s r slots)
    (hs : (s.cons t).Ascends source) (ht : t.span.start < t.span.stop)
    (hclear : Child.Everywhere (ClearOf s) slots) :
    Child.Everywhere (ClearOf (s.cons t)) slots := by
  obtain ⟨-, hstop, hrest⟩ := ascends_cons.1 hs
  intro node hnode
  refine (hclear node hnode).cons ?_
  obtain ⟨hlow, -⟩ := (h.nested hrest).forall_between node hnode
  omega

/-- **In lines**, a node that begins at a line break is empty. -/
theorem Derives.clearOf_lines (h : Derives .lines n s r slots) (hs : s.Ascends source)
    (hbreaks : ∀ t ∈ s.toList, t.kind = .newline → t.span.start < t.span.stop) :
    Child.Everywhere (ClearOf s) slots := by
  generalize hphrase : Phrase.lines = phrase at h
  induction h with
  | noLine => exact Child.everywhere_nil
  | blankLine hnewline h ih =>
      obtain ⟨hbreak, hbreaks⟩ := List.forall_mem_cons.1 hbreaks
      exact h.clearOf_cons hs (hbreak hnewline) (ih (ascends_cons.1 hs).2.2 hbreaks rfl)
  | @line _ newline s m r statement statements h hnewline hlines _ ih =>
      have hrest := (h.nested hs).rest
      have hstatement := h.clearOf_statement hs
      obtain ⟨taken, rfl, htaken⟩ := h.exists_unended
      rw [TokenStream.toList_prepend, List.forall_mem_append] at hbreaks
      obtain ⟨hbreak, hbreaks⟩ := List.forall_mem_cons.1 hbreaks.2
      have hclear := ih (ascends_cons.1 hrest).2.2 hbreaks rfl
      -- the other lines stand behind the line break, and the statement took no line break
      refine hstatement.cons fun node hnode => ?_
      exact (hlines.clearOf_cons hrest (hbreak hnewline) hclear node hnode).prepend htaken
  | lastLine h _ => exact h.clearOf_statement hs
  | _ => contradiction

end Phrase

/-! ### Trees -/

namespace Tree

variable {source : String} {tree node : Tree} {token : Token}

/-- **A node that begins at a line break is empty**, unless it is that of the whole text. -/
theorem endsLine_of_newline (h : ofSource source = .ok tree)
    (hnode : node ∈ Child.preorderAll tree.children) (htoken : token ∈ Token.significant source)
    (hkind : token.kind = .newline) (hstart : node.span.start = token.span.start) :
    node.span.EndsLine source.toList := by
  obtain ⟨hbreak, hnewline⟩ := Token.exists_of_newline source _ (List.mem_filter.1 htoken).1 hkind
  rw [← hstart] at hnewline
  refine ⟨?_, hnewline⟩
  obtain ⟨trees, r, rfl, hderives, -⟩ := ofSource_eq_ok_iff.1 h
  have hbreaks : ∀ t ∈ (TokenStream.ofSource source).toList, t.kind = .newline →
      t.span.start < t.span.stop := by
    intro t ht hkind
    rw [TokenStream.toList_ofSource] at ht
    exact (Token.exists_of_newline source _ (List.mem_filter.1 ht).1 hkind).1
  have hclear := hderives.clearOf_lines (TokenStream.ascends_ofSource source) hbreaks
  refine hclear node hnode token ?_ hkind hstart
  rwa [TokenStream.toList_ofSource]

end Tree

end GrammarCatalog
