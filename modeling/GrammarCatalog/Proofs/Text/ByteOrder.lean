/-
**The order of texts and of their bytes.**

Texts are compared by their characters, and characters by their code points.  The UTF-8 forms of
texts are compared by their bytes.  Both orders are one: of two characters, the one with the smaller
code point has the form that is smaller at the first byte in which the forms differ, and they differ
before either of them ends.

The form of a character is a first byte, which also says how many bytes follow, and then digits to
the base 64, the most significant one first.

Main definitions:

* `GrammarCatalog.Text.bytes` — the bytes of a text;
* `GrammarCatalog.Text.Utf8.countBehind`, `GrammarCatalog.Text.Utf8.firstByte`,
  `GrammarCatalog.Text.Utf8.lastBytes` — the parts of the form of a code point.

Main results:

* `GrammarCatalog.Text.Utf8.utf8EncodeChar_eq` — the form of a character consists of these parts;
* `GrammarCatalog.Text.Utf8.utf8EncodeChar_append_lt` — the forms of two characters differ in the
  order of the characters, whatever follows;
* `GrammarCatalog.Text.bytes_lt_bytes_iff` — **texts are in the order of their bytes**.
-/

import Mathlib.Algebra.Order.Group.Nat
import Mathlib.Data.Char
import Mathlib.Data.List.Lex

set_option relaxedAutoImplicit false
set_option autoImplicit false

namespace GrammarCatalog.Text

/-! ### The form of a character -/

namespace Utf8

/-- The number of bytes behind the first one, in the form of a code point. -/
def countBehind (code : ℕ) : ℕ :=
  if code ≤ 0x7f then 0 else if code ≤ 0x7ff then 1 else if code ≤ 0xffff then 2 else 3

/-- The first byte of the form of a code point. -/
def firstByte (code : ℕ) : ℕ :=
  if code ≤ 0x7f then code
  else if code ≤ 0x7ff then code / 64 + 0xc0
  else if code ≤ 0xffff then code / 64 ^ 2 + 0xe0
  else code / 64 ^ 3 + 0xf0

/-- So many of the last bytes of the form of a code point: each stands for a digit to the
base 64. -/
def lastBytes : ℕ → ℕ → List UInt8
  | 0, _ => []
  | count + 1, code => .ofNat (code / 64 ^ count % 64 + 0x80) :: lastBytes count code

theorem toNat_lt (c : Char) : c.toNat < 0x110000 := by
  have hvalid := c.valid
  simp only [UInt32.isValidChar, Nat.isValidChar, Char.toNat_val] at hvalid
  omega

/-- The form of a character is a first byte and the digits behind it. -/
theorem utf8EncodeChar_eq (c : Char) : String.utf8EncodeChar c =
    .ofNat (firstByte c.toNat) :: lastBytes (countBehind c.toNat) c.toNat := by
  have hbound := toNat_lt c
  simp only [String.utf8EncodeChar, firstByte, countBehind, Char.toNat_val]
  -- in the first byte, no digit is cut off
  split_ifs with hone htwo hthree
  · rfl
  · have hfirst : c.toNat / 64 % 32 = c.toNat / 64 := Nat.mod_eq_of_lt (by omega)
    simp [lastBytes, hfirst]
  · have hfirst : c.toNat / 4096 % 16 = c.toNat / 4096 := Nat.mod_eq_of_lt (by omega)
    simp [lastBytes, hfirst]
  · have hfirst : c.toNat / 262144 % 8 = c.toNat / 262144 := Nat.mod_eq_of_lt (by omega)
    simp [lastBytes, hfirst]

theorem firstByte_lt {code : ℕ} (h : code < 0x110000) : firstByte code < 2 ^ 8 := by
  simp only [firstByte]
  split_ifs <;> omega

/-- The first bytes of two forms are in the order of the code points, or they are the same; then as
many bytes follow, and it is in the digits of these that the code points differ. -/
theorem firstByte_lt_or_eq {code other : ℕ} (h : code < other) :
    firstByte code < firstByte other ∨ firstByte code = firstByte other ∧
      countBehind code = countBehind other ∧
      code / 64 ^ countBehind code = other / 64 ^ countBehind code := by
  simp only [firstByte, countBehind]
  split_ifs <;> simp only [Nat.reducePow, true_and] <;> omega

variable {xs ys : List UInt8}

/-- If code points differ in their last digits, these are in the order of the code points. -/
theorem lastBytes_append_lt {count code other : ℕ} (h : code < other)
    (hfront : code / 64 ^ count = other / 64 ^ count) :
    lastBytes count code ++ xs < lastBytes count other ++ ys := by
  induction count with
  | zero =>
      rw [Nat.pow_zero, Nat.div_one, Nat.div_one] at hfront
      omega
  | succ count ih =>
      have hle : code / 64 ^ count ≤ other / 64 ^ count := Nat.div_le_div_right h.le
      rw [Nat.pow_succ, ← Nat.div_div_eq_div_mul, ← Nat.div_div_eq_div_mul] at hfront
      refine List.cons_lt_cons_iff.2 ?_
      rcases hle.lt_or_eq with hlt | heq
      · have hdigit : code / 64 ^ count % 64 < other / 64 ^ count % 64 := by omega
        refine Or.inl ((UInt8.ofNat_lt_iff_lt ?_ ?_).2 (Nat.add_lt_add_right hdigit _))
        · simp only [UInt8.size]
          omega
        · simp only [UInt8.size]
          omega
      · exact Or.inr ⟨by rw [heq], ih heq⟩

/-- Whatever follows, the forms of characters are in the order of the characters. -/
theorem utf8EncodeChar_append_lt {c d : Char} (h : c < d) :
    String.utf8EncodeChar c ++ xs < String.utf8EncodeChar d ++ ys := by
  have hcode : c.toNat < d.toNat := h
  rw [utf8EncodeChar_eq, utf8EncodeChar_eq]
  refine List.cons_lt_cons_iff.2 ?_
  rcases firstByte_lt_or_eq hcode with hlt | ⟨heq, hcount, hfront⟩
  · have hc := firstByte_lt (toNat_lt c)
    have hd := firstByte_lt (toNat_lt d)
    exact Or.inl ((UInt8.ofNat_lt_iff_lt hc hd).2 hlt)
  · rw [heq, ← hcount]
    exact Or.inr ⟨rfl, lastBytes_append_lt hcode hfront⟩

/-- The forms of texts are in the order of the texts. -/
theorem flatMap_utf8EncodeChar_lt {cs ds : List Char} (h : cs < ds) :
    cs.flatMap String.utf8EncodeChar < ds.flatMap String.utf8EncodeChar := by
  induction cs generalizing ds with
  | nil =>
      cases ds with
      | nil => exact absurd h (List.lt_irrefl _)
      | cons d ds =>
          rw [List.flatMap_cons, utf8EncodeChar_eq]
          exact List.nil_lt_cons _ _
  | cons c cs ih =>
      cases ds with
      | nil => exact absurd h (List.not_lt_nil _)
      | cons d ds =>
          rw [List.flatMap_cons, List.flatMap_cons]
          rcases List.cons_lt_cons_iff.1 h with hlt | ⟨rfl, hlt⟩
          · exact utf8EncodeChar_append_lt hlt
          · exact List.append_left_lt (ih hlt)

end Utf8

/-! ### The bytes of a text -/

/-- The bytes of the UTF-8 form of a text. -/
def bytes (text : String) : List UInt8 := text.toUTF8.data.toList

theorem bytes_eq_flatMap (text : String) :
    bytes text = text.toList.flatMap String.utf8EncodeChar := by
  rw [bytes, String.toUTF8_eq_toByteArray, ← String.utf8Encode_toList]
  exact List.toList_data_toByteArray

/-- **Texts are in the order of their bytes.** -/
theorem bytes_lt_bytes_iff {left right : String} : bytes left < bytes right ↔ left < right := by
  rw [bytes_eq_flatMap, bytes_eq_flatMap]
  refine ⟨fun h => ?_, Utf8.flatMap_utf8EncodeChar_lt⟩
  rcases lt_trichotomy left.toList right.toList with hlt | heq | hgt
  · exact hlt
  · rw [heq] at h
    exact absurd h (List.lt_irrefl _)
  · exact absurd h (List.lt_asymm (Utf8.flatMap_utf8EncodeChar_lt hgt))

end GrammarCatalog.Text
