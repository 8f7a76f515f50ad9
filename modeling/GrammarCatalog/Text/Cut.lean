/-
**Cutting a text at a byte offset.**

Positions in a text are counted in bytes of its UTF-8 form, while the text itself is handled as a
list of characters.  A cut at a byte offset exists exactly when the offset falls between two
characters; then it is unique.

Main definitions:

* `GrammarCatalog.Text.byteLength` — the number of bytes of a list of characters;
* `GrammarCatalog.Text.cut?` — the two parts on either side of a byte offset;
* `GrammarCatalog.Text.slice?` — the part between two byte offsets.

Main results:

* `GrammarCatalog.Text.cut?_eq_some_iff` — a cut at `n` is a split whose first part has `n` bytes;
* `GrammarCatalog.Text.slice?_eq_some_iff` — a slice is the middle of a split in three.
-/

set_option relaxedAutoImplicit false
set_option autoImplicit false

namespace GrammarCatalog.Text

/-! ### Lengths in bytes -/

/-- The number of bytes that the characters take in UTF-8. -/
def byteLength : List Char → Nat
  | [] => 0
  | c :: cs => c.utf8Size + byteLength cs

@[simp] theorem byteLength_nil : byteLength [] = 0 := rfl

@[simp] theorem byteLength_cons (c : Char) (cs : List Char) :
    byteLength (c :: cs) = c.utf8Size + byteLength cs := rfl

@[simp] theorem byteLength_append (xs ys : List Char) :
    byteLength (xs ++ ys) = byteLength xs + byteLength ys := by
  induction xs with
  | nil => simp
  | cons c xs ih => simp [ih, Nat.add_assoc]

theorem byteLength_eq_zero_iff {cs : List Char} : byteLength cs = 0 ↔ cs = [] := by
  cases cs with
  | nil => simp
  | cons c cs =>
      have := c.utf8Size_pos
      simp only [byteLength_cons, reduceCtorEq, iff_false]
      omega

/-! ### Cuts -/

/-- The parts before and after a byte offset; none when the offset lies beyond the end or inside
a character. -/
def cut? : Nat → List Char → Option (List Char × List Char)
  | 0, cs => some ([], cs)
  | _ + 1, [] => none
  | n + 1, c :: cs =>
      if c.utf8Size ≤ n + 1 then
        (cut? (n + 1 - c.utf8Size) cs).map fun parts => (c :: parts.1, parts.2)
      else none

@[simp] theorem cut?_zero (cs : List Char) : cut? 0 cs = some ([], cs) := by
  cases cs <;> rfl

theorem cut?_eq_some_iff {n : Nat} {cs before after : List Char} :
    cut? n cs = some (before, after) ↔ before ++ after = cs ∧ byteLength before = n := by
  induction cs generalizing n before with
  | nil =>
      cases n with
      | zero =>
          rw [cut?_zero]
          simp only [Option.some.injEq, Prod.mk.injEq, List.append_eq_nil_iff]
          constructor
          · rintro ⟨rfl, rfl⟩; simp
          · rintro ⟨⟨rfl, rfl⟩, _⟩; simp
      | succ n =>
          simp only [cut?, reduceCtorEq, List.append_eq_nil_iff, false_iff, not_and]
          rintro ⟨rfl, rfl⟩
          simp
  | cons c cs ih =>
      have hc := c.utf8Size_pos
      cases n with
      | zero =>
          rw [cut?_zero, byteLength_eq_zero_iff]
          simp only [Option.some.injEq, Prod.mk.injEq]
          constructor
          · rintro ⟨rfl, rfl⟩; simp
          · rintro ⟨h, rfl⟩; exact ⟨rfl, by simpa using h.symm⟩
      | succ n =>
          unfold cut?
          split
          · rename_i hle
            simp only [Option.map_eq_some_iff, Prod.mk.injEq, Prod.exists]
            constructor
            · rintro ⟨b, a, h, rfl, rfl⟩
              obtain ⟨rfl, hb⟩ := ih.1 h
              exact ⟨rfl, by simp only [byteLength_cons]; omega⟩
            -- the first part is not empty, so it begins with the first character of the text
            · rintro ⟨h, hb⟩
              cases before with
              | nil => simp at hb
              | cons d before =>
                  simp only [List.cons_append, List.cons.injEq] at h
                  obtain ⟨rfl, h⟩ := h
                  simp only [byteLength_cons] at hb
                  exact ⟨before, after, ih.2 ⟨h, by omega⟩, rfl, rfl⟩
          · rename_i hle
            simp only [reduceCtorEq, false_iff, not_and]
            intro h hb
            cases before with
            | nil => simp at hb
            | cons d before =>
                simp only [List.cons_append, List.cons.injEq] at h
                obtain ⟨rfl, _⟩ := h
                simp only [byteLength_cons] at hb
                omega

/-- The characters between two byte offsets; none when an offset is no cut or the second one is
the smaller. -/
def slice? (start stop : Nat) (cs : List Char) : Option (List Char) :=
  if start ≤ stop then
    (cut? start cs).bind fun parts => (cut? (stop - start) parts.2).map Prod.fst
  else none

theorem slice?_eq_some_iff {start stop : Nat} {cs part : List Char} :
    slice? start stop cs = some part ↔
      ∃ before after, before ++ (part ++ after) = cs ∧ byteLength before = start ∧
        start + byteLength part = stop := by
  unfold slice?
  split
  · rename_i hle
    simp only [Option.bind_eq_some_iff, Option.map_eq_some_iff, Prod.exists]
    constructor
    · rintro ⟨before, rest, h₁, part', after, h₂, rfl⟩
      obtain ⟨rfl, hb⟩ := cut?_eq_some_iff.1 h₁
      obtain ⟨rfl, hp⟩ := cut?_eq_some_iff.1 h₂
      exact ⟨before, after, rfl, hb, by omega⟩
    · rintro ⟨before, after, rfl, hb, hp⟩
      exact ⟨before, part ++ after, cut?_eq_some_iff.2 ⟨rfl, hb⟩, part, after,
        cut?_eq_some_iff.2 ⟨rfl, by omega⟩, rfl⟩
  · rename_i hle
    simp only [reduceCtorEq, false_iff, not_exists, not_and]
    intro before after _ _ _
    omega

end GrammarCatalog.Text
