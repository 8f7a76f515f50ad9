/-
**Cursors.**

A cursor is a place in a text: the number of bytes before it, and its line and column.  Passing a
character moves it by the bytes of that character and to the next column, or to the first column
of the next line when the character is a line feed.

Main definitions:

* `GrammarCatalog.Text.Cursor` — a place in a text;
* `GrammarCatalog.Text.Cursor.step`, `GrammarCatalog.Text.Cursor.advance` — passing one character,
  and passing several.

Main results:

* `GrammarCatalog.Text.Cursor.advance_append` — passing two texts is passing one after the other;
* `GrammarCatalog.Text.Cursor.offset_advance`, `GrammarCatalog.Text.Cursor.line_advance` — the
  offset counts bytes and the line counts line feeds.
-/

import GrammarCatalog.Text.Cut

set_option relaxedAutoImplicit false
set_option autoImplicit false

namespace GrammarCatalog.Text

/-- A place in a text: bytes before it, and line and column counted from one. -/
structure Cursor where
  /-- Number of bytes before the place. -/
  offset : Nat
  /-- Line of the place, counted from one. -/
  line : Nat
  /-- Column of the place in characters, counted from one. -/
  column : Nat
  deriving DecidableEq, Repr, Inhabited

namespace Cursor

/-- The place before the first character of a text. -/
def origin : Cursor := ⟨0, 1, 1⟩

/-- The place after one more character. -/
def step (cursor : Cursor) (c : Char) : Cursor :=
  if c = '\n' then ⟨cursor.offset + c.utf8Size, cursor.line + 1, 1⟩
  else ⟨cursor.offset + c.utf8Size, cursor.line, cursor.column + 1⟩

/-- The place after more characters. -/
def advance (cursor : Cursor) (cs : List Char) : Cursor := cs.foldl step cursor

@[simp] theorem advance_nil (cursor : Cursor) : cursor.advance [] = cursor := rfl

@[simp] theorem advance_cons (cursor : Cursor) (c : Char) (cs : List Char) :
    cursor.advance (c :: cs) = (cursor.step c).advance cs := rfl

theorem advance_append (cursor : Cursor) (xs ys : List Char) :
    cursor.advance (xs ++ ys) = (cursor.advance xs).advance ys := List.foldl_append

@[simp] theorem offset_step (cursor : Cursor) (c : Char) :
    (cursor.step c).offset = cursor.offset + c.utf8Size := by
  unfold step; split <;> rfl

@[simp] theorem offset_advance (cursor : Cursor) (cs : List Char) :
    (cursor.advance cs).offset = cursor.offset + byteLength cs := by
  induction cs generalizing cursor with
  | nil => simp
  | cons c cs ih => simp [ih, Nat.add_assoc]

theorem line_advance (cursor : Cursor) (cs : List Char) :
    (cursor.advance cs).line = cursor.line + cs.count '\n' := by
  induction cs generalizing cursor with
  | nil => simp
  | cons c cs ih =>
      rw [advance_cons, ih, List.count_cons]
      by_cases h : c = '\n'
      · simp [step, h]; omega
      · simp [step, h]

end Cursor

end GrammarCatalog.Text
