/-
**The line around a place in a text.**

A text is cut into lines at its line feeds.  The line that holds a given place is found by going
back from the place to the line feed before it and forward to the one after it.  Carriage returns
at the end of a line belong to the line break and are left out when the line is shown.

Main definitions:

* `GrammarCatalog.Text.firstLine`, `GrammarCatalog.Text.lastLine` — the first and the last line of
  a text;
* `GrammarCatalog.Text.trimReturns` — a text without its trailing carriage returns;
* `GrammarCatalog.Text.lineAround` — the line that holds the place between two texts.

Main results:

* `GrammarCatalog.Text.newline_notMem_lineAround` — a line holds no line feed;
* `GrammarCatalog.Text.exists_eq_lastLine_append` — what stands before the last line ends in a
  line feed, if anything does.
-/

set_option relaxedAutoImplicit false
set_option autoImplicit false

namespace GrammarCatalog.Text

/-- The text up to its first line feed, or all of it. -/
def firstLine (cs : List Char) : List Char := cs.takeWhile (· != '\n')

/-- The text after its last line feed, or all of it. -/
def lastLine (cs : List Char) : List Char := (firstLine cs.reverse).reverse

/-- The text without the carriage returns at its end. -/
def trimReturns (cs : List Char) : List Char := (cs.reverse.dropWhile (· == '\r')).reverse

/-- The line that holds the place between two texts, without the carriage returns at its end. -/
def lineAround (before after : List Char) : List Char :=
  trimReturns (lastLine before ++ firstLine after)

/-! ### Lines hold no line feed -/

theorem newline_notMem_firstLine (cs : List Char) : '\n' ∉ firstLine cs := by
  intro h
  have := List.all_eq_true.1 (List.all_takeWhile (p := fun c : Char => c != '\n') (l := cs)) '\n' h
  simp at this

theorem newline_notMem_lastLine (cs : List Char) : '\n' ∉ lastLine cs := by
  simpa [lastLine] using newline_notMem_firstLine cs.reverse

theorem mem_of_mem_trimReturns {cs : List Char} {c : Char} (h : c ∈ trimReturns cs) : c ∈ cs := by
  have sub := List.dropWhile_sublist (· == '\r') (l := cs.reverse)
  simpa using sub.subset (by simpa [trimReturns] using h)

theorem newline_notMem_lineAround (before after : List Char) : '\n' ∉ lineAround before after := by
  intro h
  rcases List.mem_append.1 (mem_of_mem_trimReturns h) with h | h
  · exact newline_notMem_lastLine before h
  · exact newline_notMem_firstLine after h

/-! ### What stands beside a line -/

/-- The last line is all of the text, or a line feed stands before it. -/
theorem exists_eq_lastLine_append (cs : List Char) :
    lastLine cs = cs ∨ ∃ before, cs = before ++ '\n' :: lastLine cs := by
  have split : firstLine cs.reverse ++ cs.reverse.dropWhile (· != '\n') = cs.reverse :=
    List.takeWhile_append_dropWhile
  cases hdrop : cs.reverse.dropWhile (· != '\n') with
  | nil =>
      left
      rw [hdrop, List.append_nil] at split
      simp [lastLine, split]
  | cons c rest =>
      -- the backward search stopped at a line feed
      right
      have hc : c = '\n' := by
        have := List.head?_dropWhile_not (fun c : Char => c != '\n') cs.reverse
        simpa [hdrop] using this
      refine ⟨rest.reverse, ?_⟩
      rw [hdrop, hc] at split
      have := congrArg List.reverse split
      simpa [lastLine] using this.symm

end GrammarCatalog.Text
