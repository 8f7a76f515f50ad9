/-
**Trees of texts one below the other.**

Two texts that have trees have one together, if a line feed stands between them: it has the
statements of the first, where they are, and then those of the second, moved by the bytes and the
lines above it.  The line break that joins the tokens of the texts begins where the first text ends,
or its last line break, so even an alternative without items at the end of it stays in its place.

Main results:

* `GrammarCatalog.Phrase.Derives.lines_append` — lines behind a line break go on with those before;
* `GrammarCatalog.Phrase.Derives.lines_dropLast` — lines may end in front of their last line break;
* `GrammarCatalog.Tree.ofSource_append` — **the tree of two texts** one below the other.
-/

import Mathlib
import GrammarCatalog.Proofs.MetaGrammar.Ends
import GrammarCatalog.Proofs.Token.Concatenation
import GrammarCatalog.Proofs.Tree.Shift
import GrammarCatalog.Proofs.MetaGrammar.Acceptance

set_option relaxedAutoImplicit false
set_option autoImplicit false

namespace GrammarCatalog

/-! ### Lines -/

namespace Phrase

open TokenStream (Aligned)

variable {n : ℕ} {s r : TokenStream} {slots others : List Child} {newline : Token}

/-- Lines behind a line break go on with those before. -/
theorem Derives.lines_append (h : Derives .lines n s (r.cons newline) slots)
    (hnewline : newline.kind = .newline) {r' : TokenStream} (h' : Derives .lines n r r' others) :
    Derives .lines n s r' (slots ++ others) := by
  generalize hphrase : Phrase.lines = phrase at h
  generalize hm : r.cons newline = m at h
  induction h with
  | noLine =>
      subst hm
      exact .blankLine hnewline h'
  | blankLine hblank _ ih => exact .blankLine hblank (ih h' hphrase hm)
  | line hstatement hbreak _ _ ih => exact .line hstatement hbreak (ih h' hphrase hm)
  | lastLine hstatement =>
      subst hm
      exact .line hstatement hnewline h'
  | _ => cases hphrase

/-- Lines that take nothing make nothing. -/
theorem Derives.eq_nil_of_lines (h : Derives .lines n r r slots) : slots = [] := by
  cases h with
  | noLine => rfl
  | blankLine _ h =>
      have hle := h.length_add_least_le
      simp only [TokenStream.toList_cons, List.length_cons, least] at hle
      omega
  | line hstatement _ h =>
      have hlt := hstatement.length_add_least_le
      have hle := h.length_add_least_le
      simp only [TokenStream.toList_cons, List.length_cons, least] at hlt hle
      omega
  | lastLine hstatement =>
      have hlt := hstatement.length_add_least_le
      simp only [least] at hlt
      omega

/-- Lines may end in front of their last line break. -/
theorem Derives.lines_dropLast (h : Derives .lines n s r slots) {front : List Token}
    (hs : s = (r.cons newline).prepend front) (hnewline : newline.kind = .newline) :
    Derives .lines n s (r.cons newline) slots := by
  generalize hphrase : Phrase.lines = phrase at h
  induction h generalizing front with
  | noLine =>
      have hlength := congrArg (fun s => s.toList.length) hs
      simp at hlength
      omega
  | blankLine hblank h ih =>
      cases front with
      | nil =>
          obtain ⟨rfl, heq⟩ := TokenStream.mk.inj hs
          obtain rfl := TokenStream.toList_injective heq
          obtain rfl := h.eq_nil_of_lines
          exact .noLine
      | cons t front =>
          obtain ⟨-, heq⟩ := TokenStream.mk.inj hs
          exact .blankLine hblank (ih (TokenStream.toList_injective heq) hphrase)
  | @line _ newline' s m r _ _ hstatement hbreak h _ ih =>
      obtain ⟨taken, hs', -⟩ := hstatement.exists_unended
      obtain ⟨between, rfl, -⟩ := h.spells
      -- what the statement, its line break and the other lines take ends with the last line break
      have heq : taken ++ newline' :: between = front ++ [newline] := by
        refine TokenStream.prepend_cancel (r := r) ?_
        rw [TokenStream.prepend_append, TokenStream.prepend_append]
        exact hs'.symm.trans hs
      rcases List.eq_nil_or_concat between with rfl | ⟨between, last, rfl⟩
      · obtain ⟨-, hlast⟩ := List.append_inj' heq rfl
        obtain rfl : newline' = newline := by simpa using hlast
        obtain rfl := h.eq_nil_of_lines
        exact .lastLine hstatement
      · rw [List.concat_eq_append, ← List.cons_append, ← List.append_assoc] at heq
        obtain ⟨-, hlast⟩ := List.append_inj' heq rfl
        obtain rfl : last = newline := by simpa using hlast
        rw [List.concat_eq_append] at hstatement ih
        exact .line hstatement hbreak (ih (TokenStream.prepend_append ..) hphrase)
  | lastLine hstatement =>
      obtain ⟨taken, hs', hunended⟩ := hstatement.exists_unended
      have heq : taken = front ++ [newline] := by
        refine TokenStream.prepend_cancel (hs'.symm.trans ?_)
        rw [TokenStream.prepend_append]
        exact hs
      have hends := hunended newline (by simp [heq])
      rw [hnewline] at hends
      contradiction
  | _ => cases hphrase

/-! ### Lines of two texts -/

/-- No text that has a tree begins with a bar. -/
theorem Derives.current_ne_pipe {n : ℕ} {s r : TokenStream} {slots : List Child}
    (h : Derives .lines n s r slots) (hr : r.current.kind = .endOfInput) :
    s.current.kind ≠ .punctuation .pipe := by
  have hstatement {m : TokenStream} {slots : List Child} (h : Derives .statement n s m slots) :
      s.current.kind ≠ .punctuation .pipe := by
    intro hpipe
    have hkind := Parse.isName_or_isDirective_of_statement h
    simp [hpipe, TokenKind.isName, TokenKind.isRule, TokenKind.isTerminal,
      TokenKind.isDirective] at hkind
  cases h with
  | noLine => simp [hr]
  | blankLine hblank _ => simp [hblank]
  | line h _ _ => exact hstatement h
  | lastLine h => exact hstatement h

/-- Without a line break in front of them, the lines are the same. -/
theorem Derives.exists_below {n : ℕ} {s : TokenStream} {eof : Token} {back : List Token}
    {slots : List Child} (h : Derives .lines n s ⟨eof, []⟩ slots) (heof : eof.kind = .endOfInput)
    (hback : s.toList = back ∨ ∃ newline, newline.kind = .newline ∧ s.toList = newline :: back) :
    ∃ below : TokenStream, below.toList = back ∧ Derives .lines n below ⟨eof, []⟩ slots := by
  rcases hback with hback | ⟨newline, hnewline, hback⟩
  · exact ⟨s, hback, h⟩
  · cases h with
    | noLine =>
        obtain ⟨rfl, -⟩ := List.cons.inj hback
        rw [heof] at hnewline
        contradiction
    | @blankLine _ _ m _ _ _ h =>
        obtain ⟨-, rfl⟩ := List.cons.inj hback
        exact ⟨m, rfl, h⟩
    | line h _ _ =>
        rw [← (List.cons.inj hback).1] at hnewline
        exact absurd hnewline (Parse.current_of_statement h).1
    | lastLine h =>
        rw [← (List.cons.inj hback).1] at hnewline
        exact absurd hnewline (Parse.current_of_statement h).1

/-- The lines of a text are in front of its end, and in front of a line break there. -/
theorem Derives.lines_up_to {n : ℕ} {s : TokenStream} {eof last : Token} {front tail : List Token}
    {slots : List Child} (h : Derives .lines n s ⟨eof, []⟩ slots)
    (hs : s.toList = front ++ last :: tail)
    (htail : last.kind = .endOfInput ∧ tail = [] ∨ last.kind = .newline ∧ ∃ eof, tail = [eof]) :
    Derives .lines n s ⟨last, tail⟩ slots := by
  obtain ⟨taken, htaken⟩ := h.suffix
  rw [hs] at htaken
  rcases htail with ⟨-, rfl⟩ | ⟨hlast, eof', rfl⟩
  · obtain ⟨-, heq⟩ := List.append_inj' htaken rfl
    obtain ⟨rfl, -⟩ := List.cons.inj heq
    exact h
  · rw [← List.singleton_append, ← List.append_assoc] at htaken
    obtain ⟨-, heq⟩ := List.append_inj' htaken rfl
    obtain ⟨rfl, -⟩ := List.cons.inj heq
    have hs : s = (TokenStream.cons last ⟨eof, []⟩).prepend front :=
      TokenStream.toList_injective (by rw [hs, TokenStream.toList_prepend]; rfl)
    exact h.lines_dropLast hs hlast

/-- Lines joined by a line break are those of the first text, where they are, and those of the
second, moved. -/
theorem Derives.lines_join {n bytes lines : ℕ} {s s' joined : TokenStream} {eof eof' : Token}
    {slots slots' : List Child} (h : Derives .lines n s ⟨eof, []⟩ slots)
    (h' : Derives .lines n s' ⟨eof', []⟩ slots')
    (hjoins : Scan.Joins s.toList joined.toList (s'.toList.map (Token.shift bytes lines))) :
    Derives .lines n joined ⟨eof'.shift bytes lines, []⟩
      (slots ++ slots'.map (Child.shift bytes lines)) := by
  obtain ⟨front, last, tail, newline, hfirst, hjoined, hnewline, hplace, htail⟩ := hjoins
  obtain ⟨below, ⟨taken', rfl, rfl⟩, hbelow⟩ := h'.shift ⟨eof'.shift bytes lines, []⟩ rfl
  generalize hbelow' : TokenStream.prepend ⟨eof'.shift bytes lines, []⟩
    (taken'.map (Token.shift bytes lines)) = below at hbelow
  -- an alternative without items at the end of the first text stays where it is
  have hplace : Aligned 0 0 ⟨last, tail⟩ (below.cons newline) := by
    rw [Aligned, Span.shift_zero]
    exact hplace
  obtain ⟨_, ⟨taken, hs, rfl⟩, habove⟩ :=
    (h.lines_up_to hfirst htail).shift (below.cons newline) hplace
  have hfront : taken = front := by
    rw [hs, TokenStream.toList_prepend] at hfirst
    exact List.append_cancel_right hfirst
  have hstream : joined = (below.cons newline).prepend (taken.map (Token.shift 0 0)) := by
    refine TokenStream.toList_injective ?_
    have hzero : Token.shift 0 0 = id := funext Token.shift_zero
    simp only [hjoined, hfront, hzero, List.map_id, TokenStream.toList_prepend,
      TokenStream.toList_cons, ← hbelow', List.map_append]
    rfl
  have hslots : slots.map (Child.shift 0 0) = slots := by
    rw [← Child.shiftAll_eq_map, Child.shiftAll_zero]
  rw [hslots, ← hstream] at habove
  exact habove.lines_append hnewline hbelow

end Phrase

/-! ### Texts -/

namespace Tree

open Phrase (Derives)

/-- The lines of a text, up to the end of the text. -/
theorem exists_lines_of_ofSource {source : String} {tree : Tree} (h : ofSource source = .ok tree) :
    ∃ (trees : List Tree) (eof : Token), tree.children = trees.map .tree ∧
      eof.kind = .endOfInput ∧
      Derives .lines Parse.maxNesting (TokenStream.ofSource source) ⟨eof, []⟩
        (trees.map .tree) := by
  obtain ⟨trees, r, rfl, hlines, hr⟩ := ofSource_eq_ok_iff.1 h
  have hs := TokenStream.terminated_ofSource source
  have hahead : r.ahead = [] := (hs.of_suffix hlines.suffix).current_iff.1 hr
  obtain ⟨eof, ahead⟩ := r
  obtain rfl : ahead = [] := hahead
  exact ⟨trees, eof, rfl, hr, hlines⟩

/-- A text that has a tree begins with no bar, whatever comments and line breaks come first. -/
theorem leadsToPipe_of_ofSource {source : String} {tree : Tree} (h : ofSource source = .ok tree) :
    Scan.leadsToPipe false source.toList = false := by
  by_contra hpipe
  obtain ⟨token, back, htokens, hkind⟩ :=
    Scan.exists_pipe_of_leadsToPipe (Scan.ofSource source) (Bool.not_eq_false _ ▸ hpipe)
  obtain ⟨trees, eof, -, heof, hlines⟩ := exists_lines_of_ofSource h
  have hstream : TokenStream.ofSource source = ⟨token, back⟩ :=
    TokenStream.toList_injective ((TokenStream.toList_ofSource source).trans htokens)
  rw [hstream] at hlines
  exact hlines.current_ne_pipe heof hkind

/-- **The tree of two texts** one below the other. -/
theorem ofSource_append {source other : String} {tree tree' : Tree}
    (h : ofSource source = .ok tree) (h' : ofSource other = .ok tree') :
    ofSource (source ++ "\n" ++ other) = .ok
      (.node .start
        (tree.children ++ tree'.children.map
          (Child.shift (Text.byteLength source.toList + 1) (source.toList.count '\n' + 1)))
        ⟨0, Text.byteLength source.toList + 1 + Text.byteLength other.toList, 1, 1⟩) := by
  obtain ⟨back, hjoins, hback⟩ := @Token.exists_joins source other (leadsToPipe_of_ofSource h')
  obtain ⟨trees, eof, htrees, -, hlines⟩ := exists_lines_of_ofSource h
  obtain ⟨trees', eof', htrees', heof', hlines'⟩ := exists_lines_of_ofSource h'
  rw [← TokenStream.toList_ofSource] at hback
  obtain ⟨below, rfl, hbelow⟩ := hlines'.exists_below heof' hback
  rw [← TokenStream.toList_ofSource, ← TokenStream.toList_ofSource] at hjoins
  have hjoined := hlines.lines_join hbelow hjoins
  rw [Phrase.map_tree_shift, ← List.map_append] at hjoined
  refine ofSource_eq_ok_iff.2 ⟨_, _, ?_, hjoined, heof'⟩
  rw [htrees, htrees', Phrase.map_tree_shift, ← List.map_append]
  simp [Char.utf8Size, Nat.add_assoc]

set_option maxRecDepth 4000 in
/-- The alternative without items at the end of the first text stays in front of the line feed. -/
theorem ofSource_append_declare :
    ∃ tree tree', ofSource "a:" = .ok tree ∧ ofSource "\n%declare B" = .ok tree' ∧
      ofSource ("a:" ++ "\n" ++ "\n%declare B") = .ok
        (.node .start (tree.children ++ tree'.children.map (Child.shift 3 1)) ⟨0, 14, 1, 1⟩) := by
  have h : ofSource "a:" = .ok
      (.node .start
        [.tree (.node .rule
          [.token ⟨.rule "a", ⟨0, 1, 1, 1⟩⟩, .absent, .absent,
            .tree (.node .expansions
              [.tree (.node .alternative
                [.tree (.node .expansion [] ⟨2, 2, 1, 3⟩), .absent] ⟨2, 2, 1, 3⟩)] ⟨2, 2, 1, 3⟩)]
          ⟨0, 2, 1, 1⟩)]
        ⟨0, 2, 1, 1⟩) := by cbv
  have h' : ofSource "\n%declare B" = .ok
      (.node .start
        [.tree (.node .declare [.token ⟨.terminal "B", ⟨10, 11, 2, 10⟩⟩] ⟨1, 11, 2, 1⟩)]
        ⟨0, 11, 1, 1⟩) := by cbv
  exact ⟨_, _, h, h', ofSource_append h h'⟩

end Tree

end GrammarCatalog
