/-
**Start symbols as a set.**

Inserting keeps a list ascending, and an ascending list is determined by its members.  So the start
symbols of a grammar depend on nothing but which names there are, and it does not matter in which of
the two lists a name is given, where in the list, or how often.  They ascend by code points, which
is to say by the bytes of their UTF-8 forms.

Main results:

* `GrammarCatalog.pairwise_startSymbols` — start symbols ascend strictly;
* `GrammarCatalog.startSymbols_congr` — the same names have the same start symbols;
* `GrammarCatalog.startSymbols_lists_set` — **start symbols are a set of names**.
-/

import GrammarCatalog.Declaration.StartSymbols
import GrammarCatalog.Proofs.Text.ByteOrder
import Mathlib.Data.List.Sort

set_option relaxedAutoImplicit false
set_option autoImplicit false

namespace GrammarCatalog

/-- Inserting keeps a list ascending. -/
theorem StartSymbols.pairwise_insert {name : String} {names : List String}
    (h : names.Pairwise (· < ·)) : (insert name names).Pairwise (· < ·) := by
  induction names with
  | nil => exact List.pairwise_singleton _ _
  | cons first others ih =>
      obtain ⟨hfirst, hothers⟩ := List.pairwise_cons.1 h
      unfold insert
      split
      · rename_i hlt
        refine List.pairwise_cons.2 ⟨?_, h⟩
        intro other hother
        rcases List.mem_cons.1 hother with rfl | hother
        · exact hlt
        · exact String.lt_trans hlt (hfirst other hother)
      · split
        · rename_i hlt
          refine List.pairwise_cons.2 ⟨?_, ih hothers⟩
          intro other hother
          rcases mem_insert.1 hother with rfl | hother
          · exact hlt
          · exact hfirst other hother
        · exact h

/-- Start symbols ascend strictly. -/
theorem pairwise_startSymbols (names extra : List String) :
    (startSymbols names extra).Pairwise (· < ·) := by
  rw [startSymbols]
  induction names ++ extra with
  | nil => exact .nil
  | cons first others ih => exact StartSymbols.pairwise_insert ih

/-- The same names have the same start symbols, however often they occur and in whatever order. -/
theorem startSymbols_congr {names extra names' extra' : List String}
    (h : ∀ name, name ∈ names ∨ name ∈ extra ↔ name ∈ names' ∨ name ∈ extra') :
    startSymbols names extra = startSymbols names' extra' := by
  refine (pairwise_startSymbols names extra).eq_of_mem_iff (pairwise_startSymbols names' extra') ?_
  intro name
  rw [mem_startSymbols, mem_startSymbols, h]

/-- **Start symbols are a set of names**, listed in ascending order of their bytes, which is that of
their characters.  Each name of either list is among them, and no other.  They are the same exactly
when the names are the same, so it changes nothing to permute entries, also from one list to the
other, to repeat entries, or to give start symbols for the names that they were made from. -/
theorem startSymbols_lists_set (names extra : List String) :
    (startSymbols names extra).Pairwise
      (fun earlier later => Text.bytes earlier < Text.bytes later) ∧
    (∀ left right : String, Text.bytes left < Text.bytes right ↔ left < right) ∧
    (∀ name, name ∈ startSymbols names extra ↔ name ∈ names ∨ name ∈ extra) ∧
    (∀ names' extra', startSymbols names' extra' = startSymbols names extra ↔
      ∀ name, name ∈ names' ∨ name ∈ extra' ↔ name ∈ names ∨ name ∈ extra) ∧
    (∀ names' extra', (names' ++ extra').Perm (names ++ extra) →
      startSymbols names' extra' = startSymbols names extra) ∧
    (∀ repeated, repeated ⊆ names ++ extra →
      startSymbols (repeated ++ names) extra = startSymbols names extra ∧
        startSymbols names (repeated ++ extra) = startSymbols names extra) ∧
    startSymbols (startSymbols names extra) extra = startSymbols names extra := by
  refine ⟨?_, fun left right => Text.bytes_lt_bytes_iff, fun name => mem_startSymbols, ?_, ?_, ?_,
    ?_⟩
  · exact (pairwise_startSymbols names extra).imp Text.bytes_lt_bytes_iff.2
  · intro names' extra'
    refine ⟨fun h name => ?_, startSymbols_congr⟩
    rw [← mem_startSymbols, ← mem_startSymbols, h]
  · intro names' extra' h
    refine startSymbols_congr fun name => ?_
    rw [← List.mem_append, ← List.mem_append, h.mem_iff]
  · intro repeated h
    have hrepeated : ∀ name ∈ repeated, name ∈ names ∨ name ∈ extra := by
      intro name hname
      exact List.mem_append.1 (h hname)
    refine ⟨startSymbols_congr fun name => ?_, startSymbols_congr fun name => ?_⟩
    · rw [List.mem_append, or_assoc, or_iff_right_of_imp (hrepeated name)]
    · rw [List.mem_append, or_left_comm, or_iff_right_of_imp (hrepeated name)]
  · refine startSymbols_congr fun name => ?_
    rw [mem_startSymbols, or_assoc, or_self]

end GrammarCatalog
