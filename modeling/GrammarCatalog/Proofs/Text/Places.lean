/-
**Places and the lines they are on.**

The counters of a place say where it is.  The line counts the line feeds before the place, and the
column the characters behind the last of them, so together they lead back to the place: it is on
that line of the text, behind so many of its characters.  In a text that is short enough the
counters fit into 32 bits.

Main results:

* `GrammarCatalog.Text.Cursor.column_advance_origin` — columns count characters on the last line;
* `GrammarCatalog.Text.Cursor.counters_lt_of_prefix` — the counters of short texts fit;
* `GrammarCatalog.Text.exists_splitOn_append` — **the line around a place**, among the lines of the
  text;
* `GrammarCatalog.Text.exists_eq_trimReturns_append` — what is left out at the end of a line.
-/

import Mathlib.Algebra.Group.Nat.Defs
import Mathlib.Data.List.DropRight
import GrammarCatalog.Text.Cursor
import GrammarCatalog.Text.Line

set_option relaxedAutoImplicit false
set_option autoImplicit false

namespace GrammarCatalog.Text

/-! ### Bytes -/

theorem byteLength_toList (text : String) : byteLength text.toList = text.utf8ByteSize := by
  have hsize (cs : List Char) : (String.ofList cs).utf8ByteSize = byteLength cs := by
    induction cs with
    | nil => rfl
    | cons c cs ih =>
        rw [← List.singleton_append, String.ofList_append, String.utf8ByteSize_append, ih]
        simp
  rw [← hsize, String.ofList_toList]

/-! ### Columns -/

theorem lastLine_concat (cs : List Char) (c : Char) :
    lastLine (cs ++ [c]) = if c = '\n' then [] else lastLine cs ++ [c] := by
  by_cases h : c = '\n' <;> simp [lastLine, firstLine, h]

/-- The column counts the characters behind the last line feed. -/
theorem Cursor.column_advance_origin (cs : List Char) :
    (Cursor.origin.advance cs).column = 1 + (lastLine cs).length := by
  induction cs using List.reverseRecOn with
  | nil => rfl
  | append_singleton cs c ih =>
      rw [advance_append, lastLine_concat]
      by_cases h : c = '\n'
      · simp [step, h]
      · simp [step, h, ih, Nat.add_assoc]

/-! ### Bounds of the counters -/

namespace Cursor

theorem line_advance_le (cursor : Cursor) (cs : List Char) :
    (cursor.advance cs).line ≤ cursor.line + byteLength cs := by
  induction cs generalizing cursor with
  | nil => simp
  | cons c cs ih =>
      have hstep : (cursor.step c).line ≤ cursor.line + 1 := by
        unfold step
        split <;> simp
      have hc := c.utf8Size_pos
      have := ih (cursor.step c)
      rw [advance_cons, byteLength_cons]
      omega

theorem column_advance_le {cursor : Cursor} (h : 1 ≤ cursor.column) (cs : List Char) :
    (cursor.advance cs).column ≤ cursor.column + byteLength cs := by
  induction cs generalizing cursor with
  | nil => simp
  | cons c cs ih =>
      have hstep : 1 ≤ (cursor.step c).column ∧ (cursor.step c).column ≤ cursor.column + 1 := by
        unfold step
        split <;> simp
      have hc := c.utf8Size_pos
      have := ih hstep.1
      rw [advance_cons, byteLength_cons]
      omega

/-- The counters of a place in a short text fit into 32 bits. -/
theorem counters_lt_of_prefix {cs before : List Char} (hlength : byteLength cs < 2 ^ 32 - 1)
    (hbefore : before <+: cs) :
    (origin.advance before).line < 2 ^ 32 ∧ (origin.advance before).column < 2 ^ 32 := by
  obtain ⟨after, rfl⟩ := hbefore
  have hline : (origin.advance before).line ≤ 1 + byteLength before :=
    line_advance_le origin before
  have hcolumn : (origin.advance before).column ≤ 1 + byteLength before :=
    column_advance_le (Nat.le_refl 1) before
  rw [byteLength_append] at hlength
  omega

end Cursor

/-! ### Lines -/

/-- A character of two texts is one of the first, or stands behind it. -/
theorem append_eq_append_cons {first second before behind : List Char} {c : Char}
    (h : first ++ second = before ++ c :: behind) :
    (∃ more, first = before ++ c :: more) ∨
      ∃ more, before = first ++ more ∧ second = more ++ c :: behind := by
  rcases List.append_eq_append_iff.1 h with ⟨more, rfl, hsecond⟩ | ⟨more, rfl, hmore⟩
  · exact Or.inr ⟨more, rfl, hsecond⟩
  · cases more with
    | nil => exact Or.inr ⟨[], by simp, hmore.symm⟩
    | cons d more =>
        obtain ⟨rfl, -⟩ := List.cons.inj hmore
        exact Or.inl ⟨more, rfl⟩

/-- The last line stands at the beginning of the text or behind a line feed. -/
theorem exists_append_lastLine (cs : List Char) :
    ∃ earlier, cs = earlier ++ lastLine cs ∧ (earlier = [] ∨ earlier.getLast? = some '\n') := by
  rcases exists_eq_lastLine_append cs with hline | ⟨before, hcs⟩
  · exact ⟨[], hline.symm, Or.inl rfl⟩
  · exact ⟨before ++ ['\n'], by simpa using hcs, Or.inr (by simp)⟩

theorem splitOn_newline_cons (cs : List Char) :
    ('\n' :: cs).splitOn '\n' = [] :: cs.splitOn '\n' := by
  simp [List.splitOn_eq_splitOnP, List.splitOnP_cons_eq_if_modifyHead]

theorem splitOn_newline_cons_of_ne {c : Char} (hc : c ≠ '\n') (cs : List Char) :
    (c :: cs).splitOn '\n' = (cs.splitOn '\n').modifyHead (c :: ·) := by
  simp [List.splitOn_eq_splitOnP, List.splitOnP_cons_eq_if_modifyHead, hc]

/-- There is one line more than there are line feeds. -/
theorem length_splitOn_newline (cs : List Char) :
    (cs.splitOn '\n').length = cs.count '\n' + 1 := by
  induction cs with
  | nil => rfl
  | cons c cs ih =>
      by_cases hc : c = '\n'
      · subst hc
        rw [splitOn_newline_cons, List.length_cons, ih, List.count_cons_self]
      · rw [splitOn_newline_cons_of_ne hc, List.length_modifyHead, ih, List.count_cons_of_ne hc]

/-- The first line of a text is its first one at the line feeds. -/
theorem exists_splitOn_eq_firstLine_cons (cs : List Char) :
    ∃ back, ∀ ahead, '\n' ∉ ahead →
      (ahead ++ cs).splitOn '\n' = (ahead ++ firstLine cs) :: back := by
  have hcut : firstLine cs ++ cs.dropWhile (· != '\n') = cs := List.takeWhile_append_dropWhile
  have hfirst := newline_notMem_firstLine cs
  cases hrest : cs.dropWhile (· != '\n') with
  | nil =>
      refine ⟨[], fun ahead hahead => ?_⟩
      rw [hrest, List.append_nil] at hcut
      rw [hcut] at hfirst ⊢
      exact List.splitOn_eq_singleton (by simp [hahead, hfirst])
  | cons c rest =>
      obtain rfl : c = '\n' := by
        have hnot := List.head?_dropWhile_not (fun c : Char => c != '\n') cs
        simpa [hrest] using hnot
      refine ⟨rest.splitOn '\n', fun ahead hahead => ?_⟩
      rw [hrest] at hcut
      conv_lhs => rw [← hcut]
      rw [← List.append_assoc, List.splitOn_append_cons_self,
        List.splitOn_eq_singleton (by simp [hahead, hfirst])]
      rfl

/-- **The line around a place** is one of the lines of the text.  There are as many lines before it
as there are line feeds before the place, and with what stands on the line before the place they
make up the text before it. -/
theorem exists_splitOn_append (before after : List Char) :
    ∃ front back, (before ++ after).splitOn '\n' =
        front ++ (lastLine before ++ firstLine after) :: back ∧
      front.length = before.count '\n' ∧
      ['\n'].intercalate (front ++ [lastLine before]) = before := by
  obtain ⟨back, hback⟩ := exists_splitOn_eq_firstLine_cons after
  have hback := hback _ (newline_notMem_lastLine before)
  have hlines : ∃ front, before.splitOn '\n' = front ++ [lastLine before] ∧
      (before ++ after).splitOn '\n' = front ++ (lastLine before ++ firstLine after) :: back := by
    rcases exists_eq_lastLine_append before with hline | ⟨earlier, hbefore⟩
    · refine ⟨[], ?_, ?_⟩
      · have hnot := newline_notMem_lastLine before
        rw [hline] at hnot ⊢
        exact List.splitOn_eq_singleton hnot
      · rw [hline] at hback ⊢
        exact hback
    · refine ⟨earlier.splitOn '\n', ?_, ?_⟩
      · conv_lhs => rw [hbefore]
        rw [List.splitOn_append_cons_self,
          List.splitOn_eq_singleton (newline_notMem_lastLine before)]
      · conv_lhs => rw [hbefore]
        rw [List.append_assoc, List.cons_append, List.splitOn_append_cons_self, hback]
  obtain ⟨front, hfront, htext⟩ := hlines
  refine ⟨front, back, htext, ?_, ?_⟩
  · have hlength := length_splitOn_newline before
    rw [hfront, List.length_append, List.length_singleton] at hlength
    exact Nat.succ_injective hlength
  · rw [← hfront]
    exact List.intercalate_splitOn '\n'

/-- Carriage returns at the end are left out, and nothing else. -/
theorem exists_eq_trimReturns_append (cs : List Char) :
    ∃ returns, cs = trimReturns cs ++ returns ∧ (∀ c ∈ returns, c = '\r') ∧
      (trimReturns cs).getLast? ≠ some '\r' := by
  refine ⟨cs.rtakeWhile (· == '\r'), List.rdropWhile_append_rtakeWhile.symm, ?_, ?_⟩
  · intro c hc
    simpa using List.mem_rtakeWhile_imp hc
  · intro hlast
    have hne : trimReturns cs ≠ [] := by
      intro hnil
      rw [hnil] at hlast
      contradiction
    have hnot := List.rdropWhile_last_not (· == '\r') cs hne
    rw [List.getLast?_eq_getLast_of_ne_nil hne, Option.some_inj] at hlast
    exact hnot (beq_iff_eq.2 hlast)

theorem trimReturns_append {returns : List Char} (h : ∀ c ∈ returns, c = '\r') (cs : List Char) :
    trimReturns (cs ++ returns) = trimReturns cs := by
  rw [trimReturns, List.reverse_append, List.dropWhile_append_of_pos ?_, trimReturns]
  intro c hc
  simp [h c (List.mem_reverse.1 hc)]

/-- What is left out at the end does not depend on what comes first. -/
theorem trimReturns_cons_trimReturns (c : Char) (cs : List Char) :
    trimReturns (c :: trimReturns cs) = trimReturns (c :: cs) := by
  obtain ⟨returns, hreturns, hall, -⟩ := exists_eq_trimReturns_append cs
  conv_rhs => rw [hreturns, ← List.cons_append, trimReturns_append hall]

end GrammarCatalog.Text
