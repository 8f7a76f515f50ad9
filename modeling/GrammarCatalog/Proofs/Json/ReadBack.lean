/-
**JSON texts read back.**

What is written of a JSON value is read as that value again, whether it is spread over lines or not
and whatever follows it.  A string may hold any characters: the escapes that are written for some of
them are read as those characters.  Numbers are left out, because no value that is written by a
program about names has any.

Main definitions:

* `GrammarCatalog.Json.StringUnit.Denotes` — a unit of a string stands for a character;
* `GrammarCatalog.Json.ReadsBack` — some characters are read as a value, whatever follows;
* `GrammarCatalog.Json.IsNumberless` — a value without numbers.

Main results:

* `GrammarCatalog.Json.readText_quote` — a written string is read back;
* `GrammarCatalog.Json.readsBack_array`, `GrammarCatalog.Json.readsBack_object` — so are arrays and
  objects, with any blanks between their parts;
* `GrammarCatalog.Json.parse_compact`, `GrammarCatalog.Json.parse_pretty` — **a written value is
  read back**.
-/

import Mathlib.Data.List.Forall2
import Mathlib.Data.List.TakeWhile
import GrammarCatalog.Json.Reader
import GrammarCatalog.Json.Writer

set_option relaxedAutoImplicit false
set_option autoImplicit false

namespace GrammarCatalog.Json

/-! ### Blanks -/

theorem skipBlanks_append {blanks : List Char} (h : ∀ c ∈ blanks, isBlank c = true)
    (cs : List Char) : skipBlanks (blanks ++ cs) = skipBlanks cs :=
  List.dropWhile_append_of_pos h

theorem skipBlanks_cons {c : Char} (h : isBlank c = false) (cs : List Char) :
    skipBlanks (c :: cs) = c :: cs := by
  simp [skipBlanks, h]

theorem isBlank_of_mem_newLine (depth : ℕ) : ∀ c ∈ newLine depth, isBlank c = true := by
  intro c hc
  rcases List.mem_cons.1 hc with rfl | hc
  · rfl
  · rw [List.eq_of_mem_replicate hc]
    rfl

/-! ### Strings -/

/-- A unit of a string stands for a character, whatever units follow. -/
def StringUnit.Denotes (unit : StringUnit) (c : Char) : Prop :=
  ∀ units, decodeUnits (unit :: units) = (decodeUnits units).map (c :: ·)

theorem StringUnit.denotes_char (c : Char) : Denotes (.char c) c := fun _ => rfl

/-- A unit of sixteen bits that is no half of a surrogate pair stands for its character. -/
theorem StringUnit.denotes_code {c : Char} (h : c.toNat < 0xD800) : Denotes (.code c.toNat) c := by
  have hhigh : isHighHalf c.toNat = false := by
    simp only [isHighHalf, Bool.and_eq_false_iff, decide_eq_false_iff_not]
    omega
  have hlow : isLowHalf c.toNat = false := by
    simp only [isLowHalf, Bool.and_eq_false_iff, decide_eq_false_iff_not]
    omega
  intro units
  rcases units with _ | ⟨unit | code, units⟩ <;> simp [decodeUnits, hhigh, hlow]

theorem hexCode?_controlDigits : ∀ n < 0x20,
    hexCode? '0' '0' (Nat.digitChar (n / 16)) (Nat.digitChar (n % 16)) = some n := by
  decide

/-- A character that is no control character, and neither the quotation mark nor the backslash, is
read as itself. -/
theorem scanUnits_cons {c : Char} (hquote : c ≠ '"') (hbackslash : c ≠ '\\')
    (hcontrol : ¬c.toNat < 0x20) (rest : List Char) :
    scanUnits (c :: rest) =
      (scanUnits rest).map fun scanned => (.char c :: scanned.1, scanned.2) := by
  rw [scanUnits.eq_5]
  · rw [if_neg hcontrol]
    cases scanUnits rest <;> rfl
  · exact hquote
  · exact fun _ _ _ _ _ hc _ => hbackslash hc
  · exact fun _ _ hc _ => hbackslash hc

/-- What is written for a character is read as one unit that stands for it. -/
theorem exists_scanUnits_escapeChar (c : Char) : ∃ unit : StringUnit, unit.Denotes c ∧
    ∀ rest, scanUnits (escapeChar c ++ rest) =
      (scanUnits rest).map fun scanned => (unit :: scanned.1, scanned.2) := by
  unfold escapeChar
  split
  case h_8 hquote hbackslash _ _ _ _ _ =>
    split
    · rename_i hcontrol
      refine ⟨.code c.toNat, StringUnit.denotes_code (by omega), fun rest => ?_⟩
      have hcode := hexCode?_controlDigits c.toNat hcontrol
      simp only [controlDigits, List.cons_append, List.nil_append]
      rw [scanUnits, hcode]
      cases scanUnits rest <;> rfl
    · rename_i hcontrol
      exact ⟨.char c, StringUnit.denotes_char c, scanUnits_cons hquote hbackslash hcontrol⟩
  all_goals
    refine ⟨.char _, StringUnit.denotes_char _, fun rest => ?_⟩
    simp only [List.cons_append, List.nil_append]
    rw [scanUnits.eq_4 _ _ (by simp)]
    cases scanUnits rest <;> rfl

theorem exists_scanUnits (text rest : List Char) : ∃ units,
    scanUnits (text.flatMap escapeChar ++ '"' :: rest) = some (units, rest) ∧
      decodeUnits units = some text := by
  induction text with
  | nil => exact ⟨[], rfl, rfl⟩
  | cons c text ih =>
      obtain ⟨units, hscan, hdecode⟩ := ih
      obtain ⟨unit, hdenotes, hunit⟩ := exists_scanUnits_escapeChar c
      refine ⟨unit :: units, ?_, by rw [hdenotes, hdecode]; rfl⟩
      rw [List.flatMap_cons, List.append_assoc, hunit, hscan]
      rfl

/-- **A written string is read back**, also one that denotes no text. -/
theorem readText_quote (text : Option String) : ∃ body, quote text = '"' :: body ∧
    ∀ rest, readText (body ++ rest) = some (text, rest) := by
  cases text with
  | none => exact ⟨_, rfl, fun rest => rfl⟩
  | some text =>
      refine ⟨_, rfl, fun rest => ?_⟩
      obtain ⟨units, hscan, hdecode⟩ := exists_scanUnits text.toList rest
      rw [List.append_assoc, List.singleton_append, readText, hscan]
      simp [hdecode]

/-! ### Values -/

/-- Some characters are read as a value, whatever follows, and begin with neither a blank nor the
sign that closes an array.  Twice their number is enough calls. -/
structure ReadsBack (value : Json) (cs : List Char) : Prop where
  /-- The characters begin with something of the value. -/
  head : ∃ c more, cs = c :: more ∧ isBlank c = false ∧ c ≠ ']'
  /-- They are read as the value. -/
  read : ∀ calls rest, 2 * cs.length ≤ calls → readValue calls (cs ++ rest) = some (value, rest)

theorem readValue_skipBlanks {blanks : List Char} (h : ∀ c ∈ blanks, isBlank c = true)
    (calls : ℕ) (cs : List Char) : readValue calls (blanks ++ cs) = readValue calls cs := by
  cases calls with
  | zero => rfl
  | succ calls => rw [readValue, readValue, skipBlanks_append h]

/-- Characters that begin neither an array nor an object are read as a scalar. -/
theorem readsBack_of_readScalar {value : Json} {c : Char} {cs : List Char}
    (hblank : isBlank c = false) (hc : c ≠ ']' ∧ c ≠ '[' ∧ c ≠ '\x7b')
    (h : ∀ rest, readScalar (c :: (cs ++ rest)) = some (value, rest)) :
    ReadsBack value (c :: cs) := by
  refine ⟨⟨c, cs, rfl, hblank, hc.1⟩, fun calls rest hcalls => ?_⟩
  obtain ⟨calls, rfl⟩ : ∃ n, calls = n + 1 := ⟨calls - 1, by simp at hcalls; omega⟩
  rw [List.cons_append, readValue, skipBlanks_cons hblank]
  split
  · simp_all
  · simp_all
  · exact h rest

theorem readsBack_null : ReadsBack .null ['n', 'u', 'l', 'l'] :=
  readsBack_of_readScalar rfl (by decide) fun _ => rfl

theorem readsBack_bool (value : Bool) : ReadsBack (.bool value) (compactChars (.bool value)) := by
  cases value with
  | true => exact readsBack_of_readScalar rfl (by decide) fun _ => rfl
  | false => exact readsBack_of_readScalar rfl (by decide) fun _ => rfl

theorem readsBack_string (text : Option String) : ReadsBack (.string text) (quote text) := by
  obtain ⟨body, hquote, hread⟩ := readText_quote text
  rw [hquote]
  refine readsBack_of_readScalar rfl (by decide) fun rest => ?_
  rw [readScalar, hread]
  rfl

/-! ### Arrays -/

/-- Joined pieces begin with the first one. -/
theorem exists_join_cons (separator piece : List Char) (pieces : List (List Char)) :
    ∃ more, join separator (piece :: pieces) = piece ++ more := by
  cases pieces with
  | nil => exact ⟨[], (List.append_nil _).symm⟩
  | cons next pieces => exact ⟨_, List.append_assoc _ _ _⟩

variable {front between back : List Char}

theorem readItems_last (hback : ∀ c ∈ back, isBlank c = true) {calls : ℕ} {item : Json}
    {cs rest : List Char} (h : readValue calls cs = some (item, back ++ ']' :: rest)) :
    readItems (calls + 1) cs = some ([item], rest) := by
  rw [readItems, h]
  simp only [Option.bind_eq_bind, Option.bind_some]
  rw [skipBlanks_append hback, skipBlanks_cons rfl]
  rfl

theorem readItems_more {calls : ℕ} {item : Json} {items : List Json} {cs more rest : List Char}
    (h : readValue calls cs = some (item, ',' :: more))
    (hitems : readItems calls more = some (items, rest)) :
    readItems (calls + 1) cs = some (item :: items, rest) := by
  rw [readItems, h]
  simp only [Option.bind_eq_bind, Option.bind_some]
  rw [skipBlanks_cons rfl]
  simp only [hitems]
  rfl

/-- Blanks in front of the first item are passed. -/
theorem readItems_skipBlanks {blanks : List Char} (h : ∀ c ∈ blanks, isBlank c = true)
    (calls : ℕ) (cs : List Char) : readItems calls (blanks ++ cs) = readItems calls cs := by
  cases calls with
  | zero => rfl
  | succ calls => rw [readItems, readItems, readValue_skipBlanks h]

/-- The items of an array are read back, one after the other, up to its closing sign. -/
theorem readItems_join (hbetween : ∀ c ∈ between, isBlank c = true)
    (hback : ∀ c ∈ back, isBlank c = true) {item : Json} {piece : List Char} {items : List Json}
    {pieces : List (List Char)} (hitem : ReadsBack item piece)
    (h : List.Forall₂ ReadsBack items pieces) (calls : ℕ) (rest : List Char)
    (hcalls : 2 * (join (',' :: between) (piece :: pieces)).length < calls) :
    readItems calls (join (',' :: between) (piece :: pieces) ++ (back ++ ']' :: rest)) =
      some (item :: items, rest) := by
  induction h generalizing calls item piece with
  | nil =>
      obtain ⟨calls, rfl⟩ : ∃ n, calls = n + 1 := ⟨calls - 1, by omega⟩
      simp only [join] at hcalls ⊢
      exact readItems_last hback (hitem.read _ _ (by omega))
  | @cons item' piece' items pieces hitem' _ ih =>
      obtain ⟨calls, rfl⟩ : ∃ n, calls = n + 1 := ⟨calls - 1, by omega⟩
      simp only [join, List.length_append, List.length_cons] at hcalls
      simp only [join, List.append_assoc, List.cons_append]
      refine readItems_more (hitem.read _ _ (by omega)) ?_
      rw [readItems_skipBlanks hbetween, ← ih hitem' calls (by omega)]

/-- **An array is read back** if its items are, whatever blanks stand between its parts. -/
theorem readsBack_array (hfront : ∀ c ∈ front, isBlank c = true)
    (hbetween : ∀ c ∈ between, isBlank c = true) (hback : ∀ c ∈ back, isBlank c = true)
    {items : List Json} {pieces : List (List Char)} (h : List.Forall₂ ReadsBack items pieces) :
    ReadsBack (.array items)
      ('[' :: (front ++ (join (',' :: between) pieces ++ (back ++ [']'])))) := by
  refine ⟨⟨'[', _, rfl, rfl, by decide⟩, fun calls rest hcalls => ?_⟩
  obtain ⟨calls, rfl⟩ : ∃ n, calls = n + 1 := ⟨calls - 1, by simp at hcalls; omega⟩
  simp only [List.length_cons, List.length_append] at hcalls
  simp only [List.cons_append, List.append_assoc, List.nil_append]
  rw [readValue, skipBlanks_cons rfl]
  simp only [skipBlanks_append hfront]
  cases h with
  | nil =>
      rw [join, List.nil_append, skipBlanks_append hback, skipBlanks_cons rfl]
      rfl
  | @cons item piece items pieces hitem h =>
      have hitems := readItems_join hbetween hback hitem h calls rest (by omega)
      obtain ⟨c, first, rfl, hblank, hc⟩ := hitem.head
      obtain ⟨others, hjoin⟩ := exists_join_cons (',' :: between) (c :: first) pieces
      rw [hjoin, List.append_assoc, List.cons_append] at hitems ⊢
      rw [skipBlanks_cons hblank]
      split
      · rename_i heq
        exact absurd (List.cons.inj heq).1 hc
      · rw [hitems]
        rfl

/-! ### Objects -/

/-- Some characters are read as a member of an object, and begin with a quotation mark. -/
structure MemberReadsBack (member : Option String × Json) (cs : List Char) : Prop where
  /-- The characters begin with the key. -/
  head : ∃ more, cs = '"' :: more
  /-- They are read as the key, and behind it as the value. -/
  read : ∀ calls rest, 2 * cs.length ≤ calls → ∃ value,
    readKey (cs ++ rest) = some (member.1, value) ∧ readValue calls value = some (member.2, rest)

/-- A member is read back if its value is, whatever blanks stand in front of the value. -/
theorem memberReadsBack (key : Option String) {value : Json} {cs : List Char}
    (hback : ∀ c ∈ back, isBlank c = true) (h : ReadsBack value cs) :
    MemberReadsBack (key, value) (quote key ++ ':' :: (back ++ cs)) := by
  obtain ⟨body, hquote, hread⟩ := readText_quote key
  rw [hquote, List.cons_append]
  refine ⟨⟨_, rfl⟩, fun calls rest hcalls => ⟨back ++ (cs ++ rest), ?_, ?_⟩⟩
  · simp only [List.cons_append, List.append_assoc]
    rw [readKey, skipBlanks_cons rfl]
    simp only [hread, Option.bind_eq_bind, Option.bind_some]
    rw [skipBlanks_cons rfl]
    rfl
  · simp only [List.length_cons, List.length_append] at hcalls
    rw [readValue_skipBlanks hback]
    exact h.read _ _ (by omega)

theorem readMembers_last (hback : ∀ c ∈ back, isBlank c = true) {calls : ℕ}
    {key : Option String} {value : Json} {cs more rest : List Char}
    (hkey : readKey cs = some (key, more))
    (h : readValue calls more = some (value, back ++ '\x7d' :: rest)) :
    readMembers (calls + 1) cs = some ([(key, value)], rest) := by
  rw [readMembers, hkey]
  simp only [Option.bind_eq_bind, Option.bind_some, h]
  rw [skipBlanks_append hback, skipBlanks_cons rfl]
  rfl

theorem readMembers_more {calls : ℕ} {key : Option String} {value : Json}
    {members : List (Option String × Json)} {cs more others rest : List Char}
    (hkey : readKey cs = some (key, more)) (h : readValue calls more = some (value, ',' :: others))
    (hmembers : readMembers calls others = some (members, rest)) :
    readMembers (calls + 1) cs = some ((key, value) :: members, rest) := by
  rw [readMembers, hkey]
  simp only [Option.bind_eq_bind, Option.bind_some, h]
  rw [skipBlanks_cons rfl]
  simp only [hmembers]
  rfl

/-- Blanks in front of the first member are passed. -/
theorem readMembers_skipBlanks {blanks : List Char} (h : ∀ c ∈ blanks, isBlank c = true)
    (calls : ℕ) (cs : List Char) : readMembers calls (blanks ++ cs) = readMembers calls cs := by
  cases calls with
  | zero => rfl
  | succ calls => rw [readMembers, readMembers, readKey, readKey, skipBlanks_append h]

/-- The members of an object are read back, one after the other, up to its closing sign. -/
theorem readMembers_join (hbetween : ∀ c ∈ between, isBlank c = true)
    (hback : ∀ c ∈ back, isBlank c = true) {member : Option String × Json} {piece : List Char}
    {members : List (Option String × Json)} {pieces : List (List Char)}
    (hmember : MemberReadsBack member piece) (h : List.Forall₂ MemberReadsBack members pieces)
    (calls : ℕ) (rest : List Char)
    (hcalls : 2 * (join (',' :: between) (piece :: pieces)).length < calls) :
    readMembers calls (join (',' :: between) (piece :: pieces) ++ (back ++ '\x7d' :: rest)) =
      some (member :: members, rest) := by
  induction h generalizing calls member piece with
  | nil =>
      obtain ⟨calls, rfl⟩ : ∃ n, calls = n + 1 := ⟨calls - 1, by omega⟩
      simp only [join] at hcalls ⊢
      obtain ⟨value, hkey, hvalue⟩ := hmember.read calls (back ++ '\x7d' :: rest) (by omega)
      exact readMembers_last hback hkey hvalue
  | @cons member' piece' members pieces hmember' _ ih =>
      obtain ⟨calls, rfl⟩ : ∃ n, calls = n + 1 := ⟨calls - 1, by omega⟩
      simp only [join, List.length_append, List.length_cons] at hcalls
      simp only [join, List.append_assoc, List.cons_append]
      obtain ⟨value, hkey, hvalue⟩ := hmember.read calls _ (by omega)
      refine readMembers_more hkey hvalue ?_
      rw [readMembers_skipBlanks hbetween, ← ih hmember' calls (by omega)]

/-- **An object is read back** if its members are, whatever blanks stand between its parts. -/
theorem readsBack_object (hfront : ∀ c ∈ front, isBlank c = true)
    (hbetween : ∀ c ∈ between, isBlank c = true) (hback : ∀ c ∈ back, isBlank c = true)
    {members : List (Option String × Json)} {pieces : List (List Char)}
    (h : List.Forall₂ MemberReadsBack members pieces) : ReadsBack (.object members)
      ('\x7b' :: (front ++ (join (',' :: between) pieces ++ (back ++ ['\x7d'])))) := by
  refine ⟨⟨'\x7b', _, rfl, rfl, by decide⟩, fun calls rest hcalls => ?_⟩
  obtain ⟨calls, rfl⟩ : ∃ n, calls = n + 1 := ⟨calls - 1, by simp at hcalls; omega⟩
  simp only [List.length_cons, List.length_append] at hcalls
  simp only [List.cons_append, List.append_assoc, List.nil_append]
  rw [readValue, skipBlanks_cons rfl]
  simp only [skipBlanks_append hfront]
  cases h with
  | nil =>
      rw [join, List.nil_append, skipBlanks_append hback, skipBlanks_cons rfl]
      rfl
  | @cons member piece members pieces hmember h =>
      have hmembers := readMembers_join hbetween hback hmember h calls rest (by omega)
      obtain ⟨first, rfl⟩ := hmember.head
      obtain ⟨others, hjoin⟩ := exists_join_cons (',' :: between) ('"' :: first) pieces
      rw [hjoin, List.append_assoc, List.cons_append] at hmembers ⊢
      rw [skipBlanks_cons rfl]
      split
      · rename_i heq
        exact absurd (List.cons.inj heq).1 (by decide)
      · rw [hmembers]
        rfl

/-! ### Written values -/

/-- A value without numbers. -/
inductive IsNumberless : Json → Prop
  | null : IsNumberless .null
  | bool (value : Bool) : IsNumberless (.bool value)
  | string (text : Option String) : IsNumberless (.string text)
  | array {items : List Json} (h : ∀ item ∈ items, IsNumberless item) : IsNumberless (.array items)
  | object {members : List (Option String × Json)}
      (h : ∀ member ∈ members, IsNumberless member.2) : IsNumberless (.object members)

theorem compactItems_eq_map (items : List Json) : compactItems items = items.map compactChars := by
  induction items with
  | nil => rfl
  | cons item items ih => rw [compactItems, ih, List.map_cons]

theorem compactMembers_eq_map (members : List (Option String × Json)) : compactMembers members =
    members.map fun member => quote member.1 ++ ':' :: compactChars member.2 := by
  induction members with
  | nil => rfl
  | cons member members ih => rw [compactMembers, ih, List.map_cons]

theorem prettyItems_eq_map (depth : ℕ) (items : List Json) :
    prettyItems depth items = items.map (prettyChars depth) := by
  induction items with
  | nil => rfl
  | cons item items ih => rw [prettyItems, ih, List.map_cons]

theorem prettyMembers_eq_map (depth : ℕ) (members : List (Option String × Json)) :
    prettyMembers depth members =
      members.map fun member => quote member.1 ++ ':' :: ' ' :: prettyChars depth member.2 := by
  induction members with
  | nil => rfl
  | cons member members ih => rw [prettyMembers, ih, List.map_cons]

/-- A list goes with its images if every member goes with its image. -/
theorem forall₂_map_right {α β : Type} {R : α → β → Prop} {f : α → β} {items : List α}
    (h : ∀ item ∈ items, R item (f item)) : List.Forall₂ R items (items.map f) := by
  rw [List.forall₂_map_right_iff, List.forall₂_same]
  exact h

theorem readsBack_compactChars {value : Json} (h : value.IsNumberless) :
    ReadsBack value (compactChars value) := by
  have hnone : ∀ c ∈ ([] : List Char), isBlank c = true := by simp
  induction h with
  | null => exact readsBack_null
  | bool value => exact readsBack_bool value
  | string text => exact readsBack_string text
  | array _ ih =>
      have hitems := forall₂_map_right ih
      rw [compactChars, compactItems_eq_map]
      exact readsBack_array hnone hnone hnone hitems
  | object _ ih =>
      have hmembers := forall₂_map_right fun member hmember =>
        memberReadsBack member.1 hnone (ih member hmember)
      rw [compactChars, compactMembers_eq_map]
      exact readsBack_object hnone hnone hnone hmembers

/-- Pieces that are spread over lines stand between blanks, or there are none. -/
theorem exists_spread_eq (depth : ℕ) (opening closing : Char) (pieces : List (List Char)) :
    ∃ front between back, spread depth opening closing pieces =
        opening :: (front ++ (join (',' :: between) pieces ++ (back ++ [closing]))) ∧
      (∀ c ∈ front, isBlank c = true) ∧ (∀ c ∈ between, isBlank c = true) ∧
      ∀ c ∈ back, isBlank c = true := by
  cases pieces with
  | nil => exact ⟨[], [], [], rfl, by simp, by simp, by simp⟩
  | cons piece pieces =>
      refine ⟨newLine (depth + 1), newLine (depth + 1), newLine depth, ?_, isBlank_of_mem_newLine _,
        isBlank_of_mem_newLine _, isBlank_of_mem_newLine _⟩
      simp [spread]

theorem readsBack_prettyChars {value : Json} (h : value.IsNumberless) (depth : ℕ) :
    ReadsBack value (prettyChars depth value) := by
  have hspace : ∀ c ∈ [' '], isBlank c = true := by simp [isBlank]
  induction h generalizing depth with
  | null => exact readsBack_null
  | bool value => exact readsBack_bool value
  | string text => exact readsBack_string text
  | array _ ih =>
      have hitems := forall₂_map_right fun item hitem => ih item hitem (depth + 1)
      rw [prettyChars, prettyItems_eq_map]
      obtain ⟨front, between, back, hspread, hfront, hbetween, hback⟩ :=
        exists_spread_eq depth '[' ']' _
      rw [hspread]
      exact readsBack_array hfront hbetween hback hitems
  | object _ ih =>
      have hmembers := forall₂_map_right fun member hmember =>
        memberReadsBack member.1 hspace (ih member hmember (depth + 1))
      rw [prettyChars, prettyMembers_eq_map]
      obtain ⟨front, between, back, hspread, hfront, hbetween, hback⟩ :=
        exists_spread_eq depth '\x7b' '\x7d' _
      rw [hspread]
      exact readsBack_object hfront hbetween hback hmembers

/-- Characters that are read back make up the text of their value, with blanks behind them. -/
theorem ReadsBack.parse {value : Json} {cs blanks : List Char} (h : ReadsBack value cs)
    (hblanks : ∀ c ∈ blanks, isBlank c = true) :
    parse (String.ofList (cs ++ blanks)) = some value := by
  rw [Json.parse, String.toList_ofList]
  simp only [h.read _ _ (show 2 * cs.length ≤ 2 * (cs ++ blanks).length + 2 by simp; omega),
    Option.bind_eq_bind, Option.bind_some]
  have hrest : skipBlanks blanks = [] := List.dropWhile_eq_nil_iff.2 hblanks
  rw [hrest]
  rfl

/-- **A value written without blanks is read back.** -/
theorem parse_compact {value : Json} (h : value.IsNumberless) :
    Json.parse value.compact = some value := by
  have hnone : ∀ c ∈ ([] : List Char), isBlank c = true := by simp
  have hparse := (readsBack_compactChars h).parse hnone
  rwa [List.append_nil] at hparse

/-- **A value spread over lines is read back**, with any blanks behind it. -/
theorem parse_pretty {value : Json} (h : value.IsNumberless) {blanks : String}
    (hblanks : ∀ c ∈ blanks.toList, isBlank c = true) :
    Json.parse (value.pretty ++ blanks) = some value := by
  have hparse := (readsBack_prettyChars h 0).parse hblanks
  rwa [String.ofList_append, String.ofList_toList] at hparse

end GrammarCatalog.Json
