/-
**Texts with other line breaks.**

A text may end its lines with a line feed, or with a carriage return and a line feed.  Either way it
has the same tokens on the same lines, and in the same columns but for line breaks.  So it is
answered alike: with the same tree, where only an empty node at the end of a line may be in another
column, or with the same parse error about the same line, of which the same is shown.  What is
collected is the same.

Main definitions:

* `GrammarCatalog.ParseError.SameContext` — two parse errors agree in message, line and the text
  shown;
* `GrammarCatalog.Tree.SameSpot`, `GrammarCatalog.Tree.SameSpots` — two nodes are in the same place,
  as far as this is a line and a column, and all nodes of two trees are.

Main results:

* `GrammarCatalog.Text.map_trimReturns_joinReturns` — the lines of a text are the same up to the
  carriage returns at their ends;
* `GrammarCatalog.Tree.returns_change_nothing` — **line breaks may have carriage returns**.
-/

import GrammarCatalog.Proofs.Declaration.Answers
import GrammarCatalog.Proofs.Token.Returns
import GrammarCatalog.Proofs.Tree.LineEnds

set_option relaxedAutoImplicit false
set_option autoImplicit false

namespace GrammarCatalog

/-! ### Lines -/

namespace Text

theorem map_trimReturns_modifyHead (c : Char) (lines : List (List Char)) :
    (lines.modifyHead (c :: ·)).map trimReturns =
      (lines.map trimReturns).modifyHead fun line => trimReturns (c :: line) := by
  cases lines with
  | nil => rfl
  | cons line lines => simp [trimReturns_cons_trimReturns]

/-- **The lines stay**, up to the carriage returns at their ends. -/
theorem map_trimReturns_joinReturns (cs : List Char) :
    ((joinReturns cs).splitOn '\n').map trimReturns = (cs.splitOn '\n').map trimReturns := by
  fun_induction joinReturns cs with
  | case1 cs ih =>
      rw [splitOn_newline_cons, splitOn_newline_cons_of_ne (by decide), splitOn_newline_cons,
        List.map_cons, ih]
      rfl
  | case2 c cs _ ih =>
      by_cases hc : c = '\n'
      · subst hc
        rw [splitOn_newline_cons, splitOn_newline_cons, List.map_cons, List.map_cons, ih]
      · rw [splitOn_newline_cons_of_ne hc, splitOn_newline_cons_of_ne hc,
          map_trimReturns_modifyHead, map_trimReturns_modifyHead, ih]
  | case3 => rfl

end Text

namespace Token

variable {source : String} {token : Token}

/-- The line shown for a token is one of the text, without the carriage returns at its end. -/
theorem StandsIn.getElem?_lines (h : token.StandsIn source.toList) {lineText : String}
    (hline : token.span.lineText? source = some lineText) :
    ((source.toList.splitOn '\n').map Text.trimReturns)[token.span.line - 1]? =
      some lineText.toList := by
  obtain ⟨before, text, after, hsource, hspan⟩ := h
  rw [lineText?_eq hsource hspan, Option.some_inj] at hline
  obtain ⟨front, back, hlines, hlength, -⟩ := Text.exists_splitOn_append before (text ++ after)
  have hindex : token.span.line - 1 = front.length := by
    rw [hspan, hlength]
    change (Text.Cursor.origin.advance before).line - 1 = _
    rw [Text.Cursor.line_advance]
    simp [Text.Cursor.origin]
  rw [← hsource, hlines, hindex, List.getElem?_map, List.getElem?_append_right le_rfl]
  simp [← hline, Text.lineAround]

/-- The same is shown of a line without the carriage returns in front of line feeds. -/
theorem lineText_eq_of_joined {token' : Token} (h : token ∈ significant source)
    (h' : token' ∈ significant (Text.joined source)) (hspan : token.span.line = token'.span.line)
    {lineText lineText' : String} (hline : token.span.lineText? source = some lineText)
    (hline' : token'.span.lineText? (Text.joined source) = some lineText') :
    lineText = lineText' := by
  have hlines := (standsIn_of_mem (List.mem_filter.1 h).1).getElem?_lines hline
  have hlines' := (standsIn_of_mem (List.mem_filter.1 h').1).getElem?_lines hline'
  rw [Text.joined, String.toList_ofList, Text.map_trimReturns_joinReturns, ← hspan, hlines,
    Option.some_inj] at hlines'
  exact String.toList_inj.1 hlines'

end Token

/-! ### Places -/

/-- What is so of two lists one for one is so of members of them. -/
theorem forall₂_and_mem {α β : Type} {R : α → β → Prop} {items : List α} {items' : List β}
    (h : List.Forall₂ R items items') :
    List.Forall₂ (fun item item' => R item item' ∧ item ∈ items ∧ item' ∈ items') items items' :=
  List.forall₂_iff_zip.2 ⟨h.length_eq, fun hmem => ⟨List.forall₂_zip h hmem, List.of_mem_zip hmem⟩⟩

/-- Two parse errors agree in message and line, and in the text of the line. -/
structure ParseError.SameContext (error error' : ParseError) : Prop where
  /-- They say the same. -/
  message : error.message = error'.message
  /-- They are about the same line. -/
  line : error.line = error'.line
  /-- The same is shown of it. -/
  lineText : error.lineText = error'.lineText

namespace Tree

/-- Two nodes of the trees of two texts are on the same line, and in the same column unless both are
empty and at the ends of lines. -/
structure SameSpot (source source' : String) (node node' : Tree) : Prop where
  /-- They are on the same line. -/
  line : node.span.line = node'.span.line
  /-- They are in the same column, but perhaps not if they are empty and at the ends of lines. -/
  column : node.span.column = node'.span.column ∨
    node.span.EndsLine source.toList ∧ node'.span.EndsLine source'.toList

/-- Two trees of two texts are the same but for offsets, and for the columns of empty nodes at the
ends of lines. -/
structure SameSpots (source source' : String) (tree tree' : Tree) : Prop where
  /-- They are the same up to where they are. -/
  unplaced : tree'.unplaced = tree.unplaced
  /-- Their nodes are on the same lines, and in the same columns unless empty. -/
  nodes : List.Forall₂ (SameSpot source source') tree.preorder tree'.preorder
  /-- Their tokens are on the same lines and in the same columns. -/
  leaves : List.Forall₂ (fun leaf leaf' : Token => leaf.span.line = leaf'.span.line ∧
    leaf.span.column = leaf'.span.column) tree.leaves tree'.leaves

end Tree

/-- A line break of a text begins at an offset. -/
def Token.BreaksAt (source : String) (offset : ℕ) : Prop :=
  ∃ token ∈ significant source, token.kind = .newline ∧ offset = token.span.start

/-- Tokens of two texts are on the same line, and in the same column unless they are line breaks;
nodes are as well, unless they begin at line breaks. -/
def Likeness.sameSpot (source source' : String) : Likeness where
  token t t' := t.SameSpot t' ∧ t ∈ Token.significant source ∧ t' ∈ Token.significant source'
  span span span' := span.line = span'.line ∧ (span.column = span'.column ∨
    Token.BreaksAt source span.start ∧ Token.BreaksAt source' span'.start)
  kind_eq h := h.1.kind
  span_token := by
    rintro t t' ⟨hspot, ht, ht'⟩
    refine ⟨hspot.line, ?_⟩
    rcases hspot.column with hkind | hcolumn
    · exact Or.inr ⟨⟨t, ht, hkind, rfl⟩, t', ht', hspot.kind.trans hkind, rfl⟩
    · exact Or.inl hcolumn
  origin := ⟨rfl, Or.inl rfl⟩
  ended h _ _ := h

namespace Tree

variable {source source' : String} {tree tree' : Tree}

/-- No leaf of the tree of a text is a line break. -/
theorem kind_ne_newline_of_mem_leaves (h : ofSource source = .ok tree) {leaf : Token}
    (hleaf : leaf ∈ tree.leaves) : leaf.kind ≠ .newline := by
  intro hkind
  have hcontent := (List.mem_filter.1 (mem_contents_of_mem_leaves h hleaf (by simp [hkind]))).2
  simp [hkind, TokenKind.isContent] at hcontent

/-- The trees of two texts with the same tokens, but for line breaks, are the same, but for empty
nodes at the ends of lines. -/
theorem Matches.sameSpots (h : tree.Matches (.sameSpot source source') tree')
    (htree : ofSource source = .ok tree) (htree' : ofSource source' = .ok tree') :
    SameSpots source source' tree tree' := by
  refine ⟨h.unplaced_eq, ?_, ?_⟩
  · obtain ⟨trees, -, rfl, -⟩ := ofSource_eq_ok_iff.1 htree
    obtain ⟨trees', -, rfl, -⟩ := ofSource_eq_ok_iff.1 htree'
    cases h with
    | node _ hslots _ =>
        -- the node of the whole text begins where the text does
        refine .cons ⟨rfl, Or.inl rfl⟩ ((forall₂_and_mem hslots.forall₂_preorderAll).imp ?_)
        rintro node node' ⟨⟨hline, hcolumn⟩, hnode, hnode'⟩
        refine ⟨hline, hcolumn.imp_right ?_⟩
        rintro ⟨⟨token, htoken, hkind, hstart⟩, token', htoken', hkind', hstart'⟩
        exact ⟨endsLine_of_newline htree hnode htoken hkind hstart,
          endsLine_of_newline htree' hnode' htoken' hkind' hstart'⟩
  · have hleaves := h.allMatch.forall₂_leavesAll
    simp only [Child.leavesAll, Child.leaves, List.append_nil] at hleaves
    refine (forall₂_and_mem hleaves).imp ?_
    rintro leaf leaf' ⟨⟨hspot, -⟩, hleaf, -⟩
    exact ⟨hspot.line, hspot.column.resolve_left (kind_ne_newline_of_mem_leaves htree hleaf)⟩

/-- **Line breaks may have carriage returns.**  Without the carriage returns in front of line feeds
a text has the same tokens, comments and malformed ones among them, on the same lines, and in the
same columns if they are no line breaks; it has the same tree, up to offsets and the columns of
empty nodes at the ends of lines, or is rejected with the same message, about the same line and with
the same line shown; and the same is collected from it. -/
theorem returns_change_nothing (source : String) :
    List.Forall₂ Token.SameSpot (Token.ofSource source) (Token.ofSource (Text.joined source)) ∧
    AnswersAgree ParseError.SameContext (SameSpots source (Text.joined source))
      (ofSource source) (ofSource (Text.joined source)) ∧
    AnswersAgree ParseError.SameContext Eq (Collected.ofSource source)
      (Collected.ofSource (Text.joined source)) := by
  have htokens := Token.forall₂_joined source
  have hsignificant : List.Forall₂ (Likeness.sameSpot source (Text.joined source)).token
      (Token.significant source) (Token.significant (Text.joined source)) := by
    refine forall₂_and_mem (List.rel_filter ?_ htokens)
    intro token token' htoken
    simp [htoken.kind]
  have hanswers : AnswersAgree ParseError.SameContext
      (Tree.Matches (.sameSpot source (Text.joined source))) (ofSource source)
      (ofSource (Text.joined source)) := by
    refine answersAgree_ofSource hsignificant ?_
    intro token htoken token' htoken' hspot message lineText lineText' hline hline'
    exact ⟨rfl, hspot.1.line, Token.lineText_eq_of_joined htoken htoken' hspot.1.line hline hline'⟩
  refine ⟨htokens, ?_, hanswers.collected⟩
  generalize htree : ofSource source = answer at hanswers ⊢
  generalize htree' : ofSource (Text.joined source) = answer' at hanswers ⊢
  cases hanswers with
  | ok hmatches => exact .ok (hmatches.sameSpots htree htree')
  | rejected hcontext => exact .rejected hcontext

set_option maxRecDepth 4000 in
-- the column of an empty alternative at the end of a line does depend on the line break
example : (ofSource "%ignore\r\n").map (fun tree => tree.preorder.map (·.span.column)) =
      .ok [1, 1, 9, 9, 9] ∧
    (ofSource "%ignore\n").map (fun tree => tree.preorder.map (·.span.column)) =
      .ok [1, 1, 8, 8, 8] := by
  constructor <;> cbv

end Tree

end GrammarCatalog
