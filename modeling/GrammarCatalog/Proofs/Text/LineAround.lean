/-
**The line that a span starts on.**

A span may be anything: its start may lie beyond the end of the text, and its end before its start.
Its line is looked for from the start alone, which counts as the end of the text if it lies beyond.
If the start is inside a character there is no answer.  Otherwise the line is the longest stretch of
the text around that offset that holds no line feed; there is one such stretch, and it is a line of
the text.  A line feed belongs to the line that it ends.  What is shown of the line is all of it but
the carriage returns at its end.

Main definitions:

* `GrammarCatalog.Text.IsClear`, `GrammarCatalog.Text.IsLine` — a stretch around an offset without
  line feeds, and the longest of them.

Main results:

* `GrammarCatalog.Text.isValid_iff_cut?` — a text is cut where its characters begin and end;
* `GrammarCatalog.Text.exists_isLine` — going back and forward to the next line feeds finds the
  line;
* `GrammarCatalog.Span.lineText?_isLine` — **the line that a span starts on**.
-/

import GrammarCatalog.Proofs.Text.Places
import GrammarCatalog.Span

set_option relaxedAutoImplicit false
set_option autoImplicit false

namespace GrammarCatalog

namespace Text

/-! ### Offsets in bytes -/

/-- A text is cut where its characters begin and end. -/
theorem isValid_iff_cut? {text : String} {offset : ℕ} :
    String.Pos.Raw.IsValid text ⟨offset⟩ ↔ ∃ parts, cut? offset text.toList = some parts := by
  rw [String.Pos.Raw.isValid_iff_exists_append]
  constructor
  · rintro ⟨before, after, rfl, h⟩
    refine ⟨(before.toList, after.toList), cut?_eq_some_iff.2 ⟨by simp, ?_⟩⟩
    rw [byteLength_toList, ← String.byteIdx_rawEndPos, ← h]
  · rintro ⟨⟨before, after⟩, h⟩
    obtain ⟨htext, hbefore⟩ := cut?_eq_some_iff.1 h
    refine ⟨String.ofList before, String.ofList after, ?_, ?_⟩
    · rw [← String.ofList_append, htext, String.ofList_toList]
    · rw [String.Pos.Raw.ext_iff, String.byteIdx_rawEndPos, ← byteLength_toList,
        String.toList_ofList, hbefore]

variable {cs part line line' : List Char} {offset start stop start' stop' : ℕ}

/-- A character at an offset in a part is one of the part. -/
theorem mem_of_slice? {front back : List Char} {c : Char} (h : slice? start stop cs = some part)
    (hcs : cs = front ++ c :: back) (hstart : start ≤ byteLength front)
    (hstop : byteLength front < stop) : c ∈ part := by
  obtain ⟨before, after, hparts, hbefore, hpart⟩ := slice?_eq_some_iff.1 h
  rcases append_eq_append_cons (hparts.trans hcs) with ⟨more, rfl⟩ | ⟨inner, rfl, hinner⟩
  -- before the part
  · have hpos := c.utf8Size_pos
    simp only [byteLength_append, byteLength_cons] at hbefore
    omega
  rcases append_eq_append_cons hinner with ⟨more, rfl⟩ | ⟨outer, rfl, -⟩
  -- in the part
  · simp
  -- behind the part
  · simp only [byteLength_append] at hstop
    omega

/-! ### Stretches without line feeds -/

/-- A part of a text, between two offsets, that holds no line feed, and that another offset is in or
at an end of. -/
structure IsClear (cs : List Char) (offset start stop : ℕ) (part : List Char) : Prop where
  /-- The part stands between its offsets. -/
  slice_eq : slice? start stop cs = some part
  /-- It does not start behind the other offset. -/
  start_le : start ≤ offset
  /-- It does not stop before the other offset. -/
  le_stop : offset ≤ stop
  /-- It holds no line feed. -/
  newline_notMem : '\n' ∉ part

/-- The line around an offset: the longest part around it that holds no line feed. -/
structure IsLine (cs : List Char) (offset start stop : ℕ) (line : List Char) : Prop extends
    IsClear cs offset start stop line where
  /-- No part of the kind reaches beyond it. -/
  maximal {first last : ℕ} {part : List Char} (h : IsClear cs offset first last part) :
    start ≤ first ∧ last ≤ stop

/-- There is no other line around the offset. -/
theorem IsLine.unique (h : IsLine cs offset start stop line)
    (h' : IsLine cs offset start' stop' line') : start' = start ∧ stop' = stop ∧ line' = line := by
  obtain ⟨hstart, hstop⟩ := h.maximal h'.toIsClear
  obtain ⟨hstart', hstop'⟩ := h'.maximal h.toIsClear
  obtain rfl : start' = start := Nat.le_antisymm hstart' hstart
  obtain rfl : stop' = stop := Nat.le_antisymm hstop hstop'
  exact ⟨rfl, rfl, Option.some.inj (h'.slice_eq.symm.trans h.slice_eq)⟩

/-- A line feed at the offset ends the line. -/
theorem IsClear.stop_eq (h : IsClear cs offset start stop part)
    (hfeed : slice? offset (offset + 1) cs = some ['\n']) : stop = offset := by
  obtain ⟨front, back, hcs, hfront, -⟩ := slice?_eq_some_iff.1 hfeed
  have hstart := h.start_le
  have hstop := h.le_stop
  by_contra hne
  exact h.newline_notMem (mem_of_slice? h.slice_eq hcs.symm (by omega) (by omega))

/-- A part without line feeds is a line if it is bounded by line feeds or the ends of the text. -/
theorem isLine_of_bounds {earlier later : List Char} (hcs : cs = earlier ++ (line ++ later))
    (hearlier : earlier = [] ∨ earlier.getLast? = some '\n')
    (hlater : later = [] ∨ later.head? = some '\n') (hline : '\n' ∉ line)
    (hstart : byteLength earlier ≤ offset) (hstop : offset ≤ byteLength (earlier ++ line)) :
    IsLine cs offset (byteLength earlier) (byteLength (earlier ++ line)) line := by
  have hslice : slice? (byteLength earlier) (byteLength (earlier ++ line)) cs = some line :=
    slice?_eq_some_iff.2 ⟨earlier, later, hcs.symm, rfl, (byteLength_append _ _).symm⟩
  refine ⟨⟨hslice, hstart, hstop, hline⟩, ?_⟩
  intro first last part h
  have hfirst := h.start_le
  have hlast := h.le_stop
  constructor
  -- what starts earlier holds the line feed in front of the line
  · rcases hearlier with rfl | hend
    · simp
    obtain ⟨front, rfl⟩ := List.getLast?_eq_some_iff.1 hend
    have hplace : cs = front ++ '\n' :: (line ++ later) := hcs.trans (List.append_assoc _ _ _)
    have hfeed : byteLength (front ++ ['\n']) = byteLength front + 1 := byteLength_append _ _
    by_contra hlt
    exact h.newline_notMem (mem_of_slice? h.slice_eq hplace (by omega) (by omega))
  -- what stops later holds the line feed behind the line, if there is one
  · obtain ⟨before, after, hparts, hbefore, hpart⟩ := slice?_eq_some_iff.1 h.slice_eq
    rcases hlater with rfl | hhead
    · have hlength := congrArg byteLength (hparts.trans hcs)
      simp only [byteLength_append, List.append_nil] at hlength ⊢
      omega
    obtain ⟨back, rfl⟩ := List.head?_eq_some_iff.1 hhead
    have hplace : cs = (earlier ++ line) ++ '\n' :: back :=
      hcs.trans (List.append_assoc _ _ _).symm
    by_contra hlt
    exact h.newline_notMem (mem_of_slice? h.slice_eq hplace (by omega) (by omega))

/-! ### The line around a place -/

/-- The first line stands at the end of the text or in front of a line feed. -/
theorem exists_firstLine_append (cs : List Char) :
    ∃ later, cs = firstLine cs ++ later ∧ (later = [] ∨ later.head? = some '\n') := by
  refine ⟨cs.dropWhile (· != '\n'), List.takeWhile_append_dropWhile.symm, ?_⟩
  have hnot := List.head?_dropWhile_not (fun c : Char => c != '\n') cs
  cases hrest : cs.dropWhile (· != '\n') with
  | nil => exact Or.inl rfl
  | cons c rest =>
      rw [hrest] at hnot
      exact Or.inr (by simpa using hnot)

/-- Going back and forward to the next line feeds finds the line. -/
theorem exists_isLine (before after : List Char) :
    ∃ start stop, IsLine (before ++ after) (byteLength before) start stop
      (lastLine before ++ firstLine after) := by
  obtain ⟨earlier, hbefore, hearlier⟩ := exists_append_lastLine before
  obtain ⟨later, hafter, hlater⟩ := exists_firstLine_append after
  have hcs : before ++ after = earlier ++ ((lastLine before ++ firstLine after) ++ later) := by
    conv_lhs => rw [hbefore, hafter]
    simp only [List.append_assoc]
  have hplace : byteLength before = byteLength earlier + byteLength (lastLine before) := by
    conv_lhs => rw [hbefore]
    exact byteLength_append _ _
  have hclear : '\n' ∉ lastLine before ++ firstLine after := by
    rw [List.mem_append, not_or]
    exact ⟨newline_notMem_lastLine before, newline_notMem_firstLine after⟩
  refine ⟨_, _, isLine_of_bounds hcs hearlier hlater hclear (by omega) ?_⟩
  simp only [byteLength_append]
  omega

end Text

/-! ### The line of a span -/

namespace Span

open Text (IsLine)

variable {source shown : String} {span : Span}

/-- A span has no line when its start is inside a character. -/
theorem lineText?_eq_none_iff : span.lineText? source = none ↔
    span.start < source.utf8ByteSize ∧ ¬String.Pos.Raw.IsValid source ⟨span.start⟩ := by
  rw [lineText?, Option.map_eq_none_iff, Text.byteLength_toList, Text.isValid_iff_cut?,
    ← Option.isSome_iff_exists, Option.not_isSome_iff_eq_none]
  rcases Nat.lt_or_ge span.start source.utf8ByteSize with hlt | hge
  · rw [Nat.min_eq_left hlt.le, and_iff_right hlt]
  · -- the end of a text is a place where it can be cut
    have hend : Text.cut? source.utf8ByteSize source.toList = some (source.toList, []) :=
      Text.cut?_eq_some_iff.2 ⟨List.append_nil _, Text.byteLength_toList source⟩
    rw [Nat.min_eq_right hge, hend]
    simp only [reduceCtorEq, false_iff, not_and]
    omega

/-- What is shown of a span is the line around its start, without the carriage returns at its end.
It is one of the lines of the text. -/
theorem exists_isLine_of_lineText? (h : span.lineText? source = some shown) :
    ∃ start stop line, IsLine source.toList (min span.start source.utf8ByteSize) start stop line ∧
      line ∈ source.toList.splitOn '\n' ∧ shown.toList = Text.trimReturns line := by
  rw [lineText?, Text.byteLength_toList] at h
  obtain ⟨⟨before, after⟩, hcut, rfl⟩ := Option.map_eq_some_iff.1 h
  obtain ⟨hsource, hoffset⟩ := Text.cut?_eq_some_iff.1 hcut
  obtain ⟨start, stop, hline⟩ := Text.exists_isLine before after
  obtain ⟨front, back, hlines, -⟩ := Text.exists_splitOn_append before after
  rw [hsource] at hline hlines
  rw [hoffset] at hline
  refine ⟨start, stop, _, hline, ?_, String.toList_ofList⟩
  rw [hlines]
  exact List.mem_append_right _ List.mem_cons_self

/-- **The line that a span starts on.**  Whatever the offsets of the span are, it has no line
exactly when its start is inside a character of the text.  Otherwise what is shown is the only line
of the text around its start, or around the end of the text if that comes first: the longest stretch
there without a line feed, which ends at the start if a line feed is there.  All carriage returns at
the end of the line are left out, and nothing else.  Spans with one start have one line. -/
theorem lineText?_isLine (source : String) (span : Span) :
    (span.lineText? source = none ↔
      span.start < source.utf8ByteSize ∧ ¬String.Pos.Raw.IsValid source ⟨span.start⟩) ∧
    (∀ shown, span.lineText? source = some shown → ∃ start stop line returns,
      IsLine source.toList (min span.start source.utf8ByteSize) start stop line ∧
      (∀ start' stop' line',
        IsLine source.toList (min span.start source.utf8ByteSize) start' stop' line' →
          start' = start ∧ stop' = stop ∧ line' = line) ∧
      line ∈ source.toList.splitOn '\n' ∧
      (Text.slice? span.start (span.start + 1) source.toList = some ['\n'] → stop = span.start) ∧
      line = shown.toList ++ returns ∧ (∀ c ∈ returns, c = '\r') ∧
      shown.toList.getLast? ≠ some '\r') ∧
    ∀ other : Span, other.start = span.start → other.lineText? source = span.lineText? source := by
  refine ⟨lineText?_eq_none_iff, ?_, fun other h => lineText?_congr h source⟩
  intro shown h
  obtain ⟨start, stop, line, hline, hlines, hshown⟩ := exists_isLine_of_lineText? h
  obtain ⟨returns, htrim, hreturns, hlast⟩ := Text.exists_eq_trimReturns_append line
  rw [← hshown] at htrim hlast
  refine ⟨start, stop, line, returns, hline, fun _ _ _ => hline.unique, hlines, ?_, htrim, hreturns,
    hlast⟩
  intro hfeed
  -- a line feed has a byte, so it is not behind the end
  have hsize : span.start + 1 ≤ source.utf8ByteSize := by
    obtain ⟨before, after, hsource, hbefore, hstop⟩ := Text.slice?_eq_some_iff.1 hfeed
    rw [← Text.byteLength_toList, ← hsource]
    simp only [Text.byteLength_append]
    omega
  rw [Nat.min_eq_left (by omega)] at hline
  exact hline.stop_eq hfeed

end Span

end GrammarCatalog
