/-
**Start symbols.**

The start symbols of a grammar are the names selected from it and any further names: a set, listed
in ascending order of code points.

Main definitions:

* `GrammarCatalog.StartSymbols.insert` — one more name in an ascending list;
* `GrammarCatalog.startSymbols` — the set of the names of two lists.

Main results:

* `GrammarCatalog.StartSymbols.mem_insert` — inserting adds that name and no other;
* `GrammarCatalog.mem_startSymbols` — the start symbols are the names of the two lists.
-/

set_option relaxedAutoImplicit false
set_option autoImplicit false

namespace GrammarCatalog

namespace StartSymbols

/-- An ascending list with one more name, which is not repeated if it is there already. -/
def insert (name : String) : List String → List String
  | [] => [name]
  | first :: others =>
      if name < first then name :: first :: others
      else if first < name then first :: insert name others
      else first :: others

theorem mem_insert {name other : String} {names : List String} :
    other ∈ insert name names ↔ other = name ∨ other ∈ names := by
  induction names with
  | nil => simp [insert]
  | cons first others ih =>
      unfold insert
      split
      · simp
      · rename_i hlt
        split
        · simp only [List.mem_cons, ih]
          constructor
          · rintro (h | h | h) <;> simp [h]
          · rintro (h | h | h) <;> simp [h]
        · rename_i hgt
          have heq : name = first := String.le_antisymm hgt hlt
          simp [heq]

end StartSymbols

/-- The names of two lists, each once, in ascending order of code points. -/
def startSymbols (names extra : List String) : List String :=
  (names ++ extra).foldr StartSymbols.insert []

theorem mem_startSymbols {names extra : List String} {name : String} :
    name ∈ startSymbols names extra ↔ name ∈ names ∨ name ∈ extra := by
  have gen (all : List String) : name ∈ all.foldr StartSymbols.insert [] ↔ name ∈ all := by
    induction all with
    | nil => simp
    | cons first others ih => simp [StartSymbols.mem_insert, ih]
  rw [startSymbols, gen, List.mem_append]

end GrammarCatalog
