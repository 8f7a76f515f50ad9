/-
**Lexemes that run on.**

A comment, or a literal whose closing delimiter has not been found, runs on to the line feed or to
the end of the text.  If it has come to the end, it takes any character that is put there, but for a
line feed.  Taking a carriage return there makes no difference to what it is: a comment leaves
carriage returns at its end out, and a literal that is open stays open.

Main definitions:

* `GrammarCatalog.Literal.IsOpen` — a literal comes to the end of the text without its delimiter.

Main results:

* `GrammarCatalog.Lexeme.RunsOn.reaches` — what runs on is a comment or an open literal;
* `GrammarCatalog.Lexeme.RunsOn.length_rest_le` — what runs on takes the next character;
* `GrammarCatalog.Lexeme.scan_append_return` — **a carriage return at the end changes no lexeme**,
  but perhaps where it ends.
-/

import Mathlib.Data.List.TakeWhile
import GrammarCatalog.Proofs.Text.Places
import GrammarCatalog.Proofs.Token.LexemeEnds
import GrammarCatalog.Proofs.Token.Lexemes

set_option relaxedAutoImplicit false
set_option autoImplicit false

namespace GrammarCatalog

/-! ### Open literals -/

namespace Literal

variable {delimiter d : Char} {cs : List Char}

/-- A literal comes to the end of the text without its closing delimiter. -/
def IsOpen (delimiter : Char) (cs : List Char) : Prop :=
  (scanBody delimiter cs).closed = false ∧ (scanBody delimiter cs).rest = []

theorem length_rest_le (delimiter : Char) (cs : List Char) :
    (scanBody delimiter cs).rest.length ≤ cs.length := by
  have happend := congrArg List.length (scanBody_append delimiter cs)
  rw [List.length_append] at happend
  omega

/-- Inside a literal any character but a line feed is taken. -/
theorem length_rest_cons_le (hd : d ≠ '\n') (more : List Char) :
    (scanBody delimiter (d :: more)).rest.length ≤ more.length := by
  by_cases hbackslash : d = '\\'
  · subst hbackslash
    rcases more with _ | ⟨e, more⟩
    · simp [scanBody]
    by_cases he : e = '\n'
    · subst he
      simp [scanBody]
    · have hle := length_rest_le delimiter more
      rw [scanBody]
      · exact Nat.le_succ_of_le hle
      · exact he
  · rw [scanBody_cons hbackslash hd]
    split
    · exact Nat.le_refl _
    · exact length_rest_le delimiter more

/-- An open literal takes the next character. -/
theorem IsOpen.length_rest_append_le (h : IsOpen delimiter cs) (hd : d ≠ '\n')
    (more : List Char) : (scanBody delimiter (cs ++ d :: more)).rest.length ≤ more.length := by
  unfold IsOpen at h
  fun_induction scanBody delimiter cs with
  | case1 => exact length_rest_cons_le hd more
  | case2 =>
      rw [List.cons_append, List.nil_append, scanBody]
      · exact length_rest_le delimiter more
      · exact hd
  | case3 | case5 | case6 => simp at h
  | case4 c rest hne ih =>
      rw [List.cons_append, List.cons_append, scanBody]
      · exact ih h
      · exact hne
  | case7 c rest hlast _ hescape hnewline hc ih =>
      rw [List.cons_append, scanBody_cons (ne_backslash hlast hescape) hnewline, if_neg hc]
      exact ih h

/-- An open literal takes a carriage return, and stays open. -/
theorem IsOpen.append_return (h : IsOpen delimiter cs) (hdelimiter : '\r' ≠ delimiter) :
    scanBody delimiter (cs ++ ['\r']) = ⟨(scanBody delimiter cs).text ++ ['\r'], false, []⟩ := by
  unfold IsOpen at h
  fun_induction scanBody delimiter cs with
  | case1 => simp [scanBody, hdelimiter, Body.push]
  | case2 => simp [scanBody, Body.push]
  | case3 | case5 | case6 => simp at h
  | case4 c rest hne ih => simp [scanBody, ih h, Body.push]
  | case7 c rest hlast _ hescape hnewline hc ih =>
      rw [List.cons_append, scanBody_cons (ne_backslash hlast hescape) hnewline, if_neg hc, ih h]
      rfl

end Literal

/-! ### Open lexemes -/

namespace Lexeme

variable {opening : Bool} {c d : Char} {cs : List Char}

/-- A word that is not open. -/
theorem isOpen_eq_false_of_name (marks text : List Char) :
    isOpen (markedKind marks text) = false ∧ isOpen (nameKind text) = false := by
  unfold markedKind nameKind
  constructor
  · split
    · split <;> rfl
    · split <;> rfl
  · split
    · rfl
    · split <;> rfl

theorem isOpen_integer (negative : Bool) (digits : List Char) :
    isOpen (integer negative digits) = false := by
  unfold integer
  dsimp only
  split
  · split <;> rfl
  · split <;> rfl

theorem isOpen_scanDirective (cs : List Char) : isOpen (scanDirective cs).kind = false := by
  unfold scanDirective
  dsimp only
  split
  · rfl
  · split <;> rfl

theorem isOpen_scanSign (c : Char) (cs : List Char) : isOpen (scanSign c cs).kind = false := by
  unfold scanSign
  split <;> rfl

theorem isOpen_scanString (h : (scanString cs).RunsOn) : Literal.IsOpen '"' cs := by
  unfold scanString RunsOn at h
  dsimp only at h
  split at h
  · exact absurd h.1 (by simp [isOpen])
  · rename_i hclosed
    exact ⟨Bool.eq_false_iff.2 hclosed, h.2⟩

theorem isOpen_scanRegexp (h : (scanRegexp cs).RunsOn) : Literal.IsOpen '/' cs := by
  unfold scanRegexp RunsOn at h
  dsimp only at h
  split at h
  · exact absurd h.1 (by simp [isOpen])
  · rename_i hclosed
    exact ⟨Bool.eq_false_iff.2 hclosed, h.2⟩

/-- Where a lexeme that begins with a sign is one that runs on. -/
def Reaches (c : Char) (cs : List Char) : Prop :=
  BeginsComment c cs ∧ (c :: cs).dropWhile (· != '\n') = [] ∨
    c = '"' ∧ Literal.IsOpen '"' cs ∨ c = '/' ∧ cs.head? ≠ some '/' ∧ Literal.IsOpen '/' cs

theorem reaches_of_scanSymbol (h : (scanSymbol c cs).RunsOn) : Reaches c cs := by
  unfold scanSymbol at h
  split at h
  · exact absurd h.1 (by simp [isOpen])
  · exact absurd h.1 (by simp [isOpen])
  · exact absurd h.1 (by simp [isOpen])
  · split at h
    · exact absurd h.1 (by simp [scanNumber, isOpen_integer])
    · exact absurd h.1 (by simp [isOpen])
  · exact Or.inl ⟨Or.inl rfl, h.2⟩
  · exact Or.inl ⟨Or.inr ⟨rfl, rfl⟩, h.2⟩
  · rename_i hslash
    refine Or.inr (Or.inr ⟨rfl, ?_, isOpen_scanRegexp h⟩)
    intro hhead
    obtain ⟨more, rfl⟩ := List.head?_eq_some_iff.1 hhead
    exact hslash more rfl
  · exact Or.inr (Or.inl ⟨rfl, isOpen_scanString h⟩)
  · exact absurd h.1 (by simp [isOpen_scanDirective])
  · exact absurd h.1 (by simp [isOpen_scanSign])

/-- **What runs on** is a comment or an open literal. -/
theorem RunsOn.reaches (h : (scan opening c cs).RunsOn) : Reaches c cs := by
  unfold scan at h
  split at h
  · exact absurd h.1 (by simp [scanMarked, isOpen_eq_false_of_name])
  split at h
  · exact absurd h.1 (by simp [scanNumber, isOpen_integer])
  split at h
  · exact absurd h.1 (by simp [scanName, (isOpen_eq_false_of_name [] _).2])
  · exact reaches_of_scanSymbol h

/-- The first characters tell where a comment begins. -/
theorem BeginsComment.append (h : BeginsComment c cs) (more : List Char) :
    BeginsComment c (cs ++ more) := by
  refine h.imp_right fun ⟨hc, hhead⟩ => ⟨hc, ?_⟩
  obtain ⟨rest, rfl⟩ := List.head?_eq_some_iff.1 hhead
  rfl

theorem length_rest_scanString_le (cs : List Char) :
    (scanString cs).rest.length ≤ (Literal.scanBody '"' cs).rest.length := by
  unfold scanString
  dsimp only
  split
  · split
    · rw [List.length_tail]
      exact Nat.sub_le _ _
    · exact Nat.le_refl _
  · exact Nat.le_refl _

theorem length_rest_scanRegexp_le (cs : List Char) :
    (scanRegexp cs).rest.length ≤ (Literal.scanBody '/' cs).rest.length := by
  unfold scanRegexp
  dsimp only
  split
  · exact (List.dropWhile_suffix _).length_le
  · exact Nat.le_refl _

/-- What runs on takes the next character, if that is no line feed. -/
theorem RunsOn.length_rest_le (h : (scan opening c cs).RunsOn) (hd : d ≠ '\n')
    (more : List Char) : (scan opening c (cs ++ d :: more)).rest.length ≤ more.length := by
  have hcomment {cs : List Char} (hline : (c :: cs).dropWhile (· != '\n') = []) :
      (scanComment (c :: (cs ++ d :: more))).rest.length ≤ more.length := by
    have hall := List.dropWhile_eq_nil_iff.1 hline
    rw [scanComment, ← List.cons_append, List.dropWhile_append_of_pos hall,
      List.dropWhile_cons_of_pos (by simpa using hd)]
    exact (List.dropWhile_suffix _).length_le
  rcases h.reaches with ⟨hbegins, hline⟩ | ⟨rfl, hopen⟩ | ⟨rfl, hhead, hopen⟩
  · rw [scan_of_beginsComment opening (hbegins.append _)]
    exact hcomment hline
  · rw [scan_quote]
    exact (length_rest_scanString_le _).trans (hopen.length_rest_append_le hd more)
  · by_cases hhead' : (cs ++ d :: more).head? = some '/'
    · rw [scan_of_beginsComment opening (Or.inr ⟨rfl, hhead'⟩)]
      refine hcomment (List.dropWhile_eq_nil_iff.2 ?_)
      -- nothing stands between the two slashes
      cases cs with
      | nil => simp
      | cons e cs => exact absurd hhead' hhead
    · rw [scan_slash opening hhead']
      exact (length_rest_scanRegexp_le _).trans (hopen.length_rest_append_le hd more)

/-- A carriage return at the end of the text is taken by what runs on. -/
theorem RunsOn.append_return (h : (scan opening c cs).RunsOn) : scan opening c (cs ++ ['\r']) =
    ⟨(scan opening c cs).kind, (scan opening c cs).text ++ ['\r'], []⟩ := by
  rcases h.reaches with ⟨hbegins, hline⟩ | ⟨rfl, hopen⟩ | ⟨rfl, hhead, hopen⟩
  · have hall := List.dropWhile_eq_nil_iff.1 hline
    have hline' : Text.firstLine (c :: cs) = c :: cs := List.takeWhile_eq_self_iff.2 hall
    have hreturn : Text.firstLine (c :: (cs ++ ['\r'])) = c :: cs ++ ['\r'] := by
      rw [← List.cons_append, Text.firstLine, List.takeWhile_append_of_pos hall]
      rfl
    have htrim : Text.trimReturns (c :: cs ++ ['\r']) = Text.trimReturns (c :: cs) :=
      Text.trimReturns_append (by simp) _
    rw [scan_of_beginsComment opening hbegins, scan_of_beginsComment opening (hbegins.append _),
      scanComment, scanComment, hreturn, hline', htrim, ← List.cons_append,
      List.dropWhile_append_of_pos hall]
    rfl
  · rw [scan_quote, scan_quote, scanString, scanString,
      hopen.append_return (by decide)]
    simp [hopen.1, Literal.Body.consumed]
  · have hhead' : (cs ++ ['\r']).head? ≠ some '/' := by
      cases cs with
      | nil => decide
      | cons d cs => exact hhead
    rw [scan_slash _ hhead, scan_slash _ hhead', scanRegexp, scanRegexp,
      hopen.append_return (by decide)]
    simp [hopen.1, Literal.Body.consumed]

/-- **A carriage return at the end of the text changes no lexeme**, but perhaps where it ends. -/
theorem scan_append_return (opening : Bool) (c : Char) (cs : List Char) :
    scan opening c (cs ++ ['\r']) = (scan opening c cs).extend ['\r'] ∨
      (scan opening c cs).rest = [] ∧ scan opening c (cs ++ ['\r']) =
        ⟨(scan opening c cs).kind, (scan opening c cs).text ++ ['\r'], []⟩ := by
  by_cases h : (scan opening c cs).RunsOn
  · exact Or.inr ⟨h.2, h.append_return⟩
  · exact Or.inl (scan_append ⟨by decide, Or.inr h⟩ [])

end Lexeme

end GrammarCatalog
