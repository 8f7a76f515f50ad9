/-
**The table of names.**

A table has one row for each name.  Its first column is as wide as the longest base name, which is
measured in bytes but filled up in characters.  The two agree because names and kinds are made of
visible characters of ASCII.  So the kinds stand below each other, and so do the spellings, whether
offsets are counted in characters or in bytes.  None of the three holds a space.  So a row is read
word by word, without knowing how wide its columns are, and a table is read as the names that it was
made from.

Main definitions:

* `GrammarCatalog.Text.IsWord`, `GrammarCatalog.Text.words` — words, and those of a text;
* `GrammarCatalog.Listing.IsRow` — a row for a name, in columns of a given width;
* `GrammarCatalog.Listing.readRow` — the name that a row is for.

Main results:

* `GrammarCatalog.Listing.nameWidth_le_iff` — the width is that of the longest base name;
* `GrammarCatalog.Listing.isRow_tableRow` — the columns of a row, and where they stand;
* `GrammarCatalog.Listing.readRow_tableRow` — a row is read as the name that it was made from;
* `GrammarCatalog.Command.prints_table` — **the table is aligned, and tells the names**.
-/

import GrammarCatalog.Proofs.CommandLine.Outputs
import GrammarCatalog.Proofs.Declaration.Filtering
import GrammarCatalog.Proofs.Text.Places

set_option relaxedAutoImplicit false
set_option autoImplicit false

namespace GrammarCatalog

open Output (text)

/-! ### Words -/

namespace Text

/-- The character is a visible one of ASCII. -/
def isGraphic (c : Char) : Bool := '!'.val ≤ c.val && c.val ≤ '~'.val

/-- A text of visible characters. -/
structure IsWord (cs : List Char) : Prop where
  /-- There is a character. -/
  ne_nil : cs ≠ []
  /-- All characters are visible. -/
  isGraphic : ∀ c ∈ cs, isGraphic c = true

/-- The words of a text, which stand between its spaces. -/
def words (cs : List Char) : List (List Char) := (cs.splitOn ' ').filter (· ≠ [])

variable {c : Char} {cs word tail : List Char}

theorem isGraphic_iff : isGraphic c = true ↔ 33 ≤ c.val.toNat ∧ c.val.toNat ≤ 126 := by
  simp only [isGraphic, Bool.and_eq_true, decide_eq_true_eq, UInt32.le_iff_toNat_le]
  exact Iff.rfl

theorem isGraphic_of_isPart (h : Name.isPart c = true) : isGraphic c = true := by
  rw [isGraphic_iff]
  simp only [Name.isPart, Name.isStart, Char.isAlpha, Char.isUpper, Char.isLower, Char.isDigit,
    Bool.or_eq_true, Bool.and_eq_true, beq_iff_eq, decide_eq_true_eq, ge_iff_le,
    UInt32.le_iff_toNat_le] at h
  have hletters : 'A'.val.toNat = 65 ∧ 'Z'.val.toNat = 90 ∧ 'a'.val.toNat = 97 ∧
    'z'.val.toNat = 122 := by decide
  have hdigits : '0'.val.toNat = 48 ∧ '9'.val.toNat = 57 := by decide
  rcases h with (rfl | h) | h
  · decide
  · omega
  · omega

theorem utf8Size_of_isGraphic (h : isGraphic c = true) : c.utf8Size = 1 := by
  have hle := (isGraphic_iff.1 h).2
  rw [Char.utf8Size_eq_one_iff, UInt32.le_iff_toNat_le]
  exact hle.trans (by decide)

theorem IsWord.space_notMem (h : IsWord word) : ' ' ∉ word := fun hmem =>
  absurd (h.isGraphic _ hmem) (by decide)

theorem IsWord.newline_notMem (h : IsWord word) : '\n' ∉ word := fun hmem =>
  absurd (h.isGraphic _ hmem) (by decide)

theorem words_cons_space (cs : List Char) : words (' ' :: cs) = words cs := by
  have hsplit : (' ' :: cs).splitOn ' ' = [] :: cs.splitOn ' ' :=
    List.splitOn_append_cons_self ([] : List Char) _
  rw [words, hsplit]
  rfl

theorem words_replicate_append (n : ℕ) (cs : List Char) :
    words (List.replicate n ' ' ++ cs) = words cs := by
  induction n with
  | zero => rfl
  | succ n ih => rw [List.replicate_succ, List.cons_append, words_cons_space, ih]

/-- A word ends at a space or at the end of the text. -/
theorem words_append (h : IsWord word) (htail : tail = [] ∨ tail.head? = some ' ') :
    words (word ++ tail) = word :: words tail := by
  rcases htail with rfl | hhead
  · rw [List.append_nil, words, List.splitOn_eq_singleton h.space_notMem]
    simp [words, h.ne_nil]
  · obtain ⟨rest, rfl⟩ := List.head?_eq_some_iff.1 hhead
    rw [words_cons_space, words, List.splitOn_append_cons_self,
      List.splitOn_eq_singleton h.space_notMem]
    simp [words, h.ne_nil]

/-- A column of a row is its word, with spaces behind it. -/
theorem words_column (h : IsWord word) (fill : ℕ) (tail : List Char) :
    words (word ++ (List.replicate (fill + 2) ' ' ++ tail)) = word :: words tail := by
  rw [words_append h (Or.inr rfl), words_replicate_append]

/-! ### Characters and bytes -/

/-- A text of so many spaces. -/
def spaces (n : ℕ) : String := String.ofList (List.replicate n ' ')

/-- Every character of the text has one byte. -/
def IsAscii (text : String) : Prop := ∀ c ∈ text.toList, c.utf8Size = 1

variable {text first second : String}

theorem IsWord.isAscii (h : IsWord text.toList) : IsAscii text := fun c hc =>
  utf8Size_of_isGraphic (h.isGraphic c hc)

theorem isAscii_spaces (n : ℕ) : IsAscii (spaces n) := by
  intro c hc
  rw [spaces, String.toList_ofList] at hc
  obtain rfl := List.eq_of_mem_replicate hc
  decide

theorem IsAscii.append (h : IsAscii first) (h' : IsAscii second) : IsAscii (first ++ second) := by
  intro c hc
  rw [String.toList_append, List.mem_append] at hc
  exact hc.elim (h c) (h' c)

theorem IsAscii.utf8ByteSize_eq (h : IsAscii text) : text.utf8ByteSize = text.length := by
  have hbytes (cs : List Char) (hcs : ∀ c ∈ cs, c.utf8Size = 1) : byteLength cs = cs.length := by
    induction cs with
    | nil => rfl
    | cons c cs ih =>
        rw [List.forall_mem_cons] at hcs
        rw [byteLength_cons, hcs.1, ih hcs.2, List.length_cons, Nat.add_comm]
  rw [← byteLength_toList, hbytes _ h, String.length_toList]

/-- A part of a row stands behind so many characters, and so many bytes. -/
def StandsAt (offset : ℕ) (part row : String) : Prop :=
  ∃ before after, row = before ++ part ++ after ∧ before.length = offset ∧
    before.utf8ByteSize = offset

theorem IsAscii.standsAt {part row before : String} {offset : ℕ} (h : IsAscii before)
    (hoffset : before.length = offset) (after : String) (hrow : row = before ++ part ++ after) :
    StandsAt offset part row :=
  ⟨before, after, hrow, hoffset, h.utf8ByteSize_eq.trans hoffset⟩

end Text

open Text (IsAscii IsWord StandsAt joinLines endedLines spaces)

namespace ClassifiedName

variable {name : ClassifiedName}

theorem isWord_baseName (h : Name.isUniform Char.isLower name.baseName.toList = true) :
    IsWord name.baseName.toList := by
  refine ⟨fun hnil => ?_, fun c hc => Text.isGraphic_of_isPart (Lexeme.isPart_of_isUniform h c hc)⟩
  rw [hnil] at h
  contradiction

theorem isWord_spelling (h : Name.isUniform Char.isLower name.baseName.toList = true) :
    IsWord name.spelling.toList := by
  have hbase := isWord_baseName h
  have hmarkers : name.markers.chars.all Text.isGraphic = true := by
    obtain ⟨pinned, visibility⟩ := name.markers
    cases pinned <;> cases visibility <;> rfl
  have hspelling : name.spelling.toList = name.markers.chars ++ name.baseName.toList := by
    simp [spelling, Markers.text]
  rw [hspelling]
  exact ⟨List.append_ne_nil_of_right_ne_nil _ hbase.ne_nil,
    List.forall_mem_append.2 ⟨List.all_eq_true.1 hmarkers, hbase.isGraphic⟩⟩

end ClassifiedName

theorem Declaration.Kind.isWord_name (kind : Declaration.Kind) : IsWord kind.name.toList := by
  cases kind with
  | rule => exact ⟨by decide, List.all_eq_true.1 (by decide)⟩
  | aliased => exact ⟨by decide, List.all_eq_true.1 (by decide)⟩

/-! ### Rows -/

namespace Listing

variable {names : List ClassifiedName} {name : ClassifiedName} {width : ℕ} {content : String}

/-- The width of a table is that of the longest base name. -/
theorem nameWidth_le_iff {bound : ℕ} :
    nameWidth names ≤ bound ↔ ∀ name ∈ names, name.baseName.utf8ByteSize ≤ bound := by
  have hfold (width : ℕ) :
      names.foldl (fun width name => max width name.baseName.utf8ByteSize) width ≤ bound ↔
        width ≤ bound ∧ ∀ name ∈ names, name.baseName.utf8ByteSize ≤ bound := by
    induction names generalizing width with
    | nil => simp
    | cons name names ih =>
        rw [List.foldl_cons, ih, Nat.max_le, List.forall_mem_cons, and_assoc]
  rw [nameWidth, hfold, and_iff_right (Nat.zero_le bound)]

/-- If there is a name, there is a longest one. -/
theorem exists_nameWidth_eq (h : names ≠ []) :
    ∃ name ∈ names, name.baseName.utf8ByteSize = nameWidth names := by
  by_contra hnone
  push Not at hnone
  have hle := nameWidth_le_iff.1 (Nat.le_refl (nameWidth names))
  have hlt : ∀ name ∈ names, name.baseName.utf8ByteSize < nameWidth names := fun name hname =>
    Nat.lt_of_le_of_ne (hle name hname) (hnone name hname)
  obtain ⟨name, hname⟩ := List.exists_mem_of_ne_nil names h
  have hpred : nameWidth names ≤ nameWidth names - 1 :=
    nameWidth_le_iff.2 fun name hname => Nat.le_sub_one_of_lt (hlt name hname)
  have hpos := hlt name hname
  omega

theorem length_padRight (h : content.length ≤ width) : (padRight width content).length = width := by
  simp only [padRight, String.length_append, String.length_ofList, List.length_replicate]
  omega

theorem isAscii_padRight (h : IsAscii content) (width : ℕ) : IsAscii (padRight width content) :=
  h.append (Text.isAscii_spaces (width - content.length))

/-- The end of a row: the words for the markers, if there are any. -/
def rowEnd (name : ClassifiedName) : String :=
  if flagWords name = [] then "" else "  " ++ ", ".intercalate (flagWords name)

theorem rowEnd_cases (name : ClassifiedName) :
    ((rowEnd name).toList = [] ∨ (rowEnd name).toList.head? = some ' ') ∧
      '\n' ∉ (rowEnd name).toList := by
  rw [rowEnd, flagWords]
  cases name.isPinned <;> cases name.isInner <;> cases name.isConditional <;> decide

theorem tableRow_eq (width : ℕ) (name : ClassifiedName) :
    tableRow width name = padRight width name.baseName ++ "  " ++ padRight kindWidth name.kind.name
      ++ "  " ++ name.spelling ++ rowEnd name := by
  simp only [tableRow, rowEnd, List.isEmpty_iff]

/-- A row in characters: three columns and the end. -/
theorem toList_tableRow (width : ℕ) (name : ClassifiedName) :
    ∃ nameFill kindFill, (tableRow width name).toList =
      name.baseName.toList ++ (List.replicate (nameFill + 2) ' ' ++
        (name.kind.name.toList ++ (List.replicate (kindFill + 2) ' ' ++
          (name.spelling.toList ++ (rowEnd name).toList)))) := by
  refine ⟨width - name.baseName.length, kindWidth - name.kind.name.length, ?_⟩
  have hgap : "  ".toList = List.replicate 2 ' ' := by decide
  simp only [tableRow_eq, padRight, String.toList_append, String.toList_ofList, hgap,
    List.replicate_add, List.append_assoc]

/-- A row for a name: the base name, the way of declaring and the spelling, in columns that are two
spaces apart, the first of a given width and the second of width five.  The words for the markers
follow behind two more spaces, and commas between them, if there are any.  The second column and the
third begin at the same places in all rows of one width. -/
structure IsRow (width : ℕ) (name : ClassifiedName) (row : String) : Prop where
  /-- The columns, filled up with spaces. -/
  columns : ∃ nameFill kindFill, name.baseName.length + nameFill = width ∧
    name.kind.name.length + kindFill = 5 ∧
    row = name.baseName ++ spaces nameFill ++ "  " ++ name.kind.name ++ spaces kindFill ++ "  " ++
      name.spelling ++ rowEnd name
  /-- The second column begins behind the first and two spaces. -/
  kind_at : StandsAt (width + 2) name.kind.name row
  /-- The third column begins behind the second and two more spaces. -/
  spelling_at : StandsAt (width + 9) name.spelling row

/-- What is between the columns of a row, and where they stand. -/
theorem isRow_tableRow (h : Name.isUniform Char.isLower name.baseName.toList = true)
    (hwidth : name.baseName.length ≤ width) : IsRow width name (tableRow width name) := by
  have hbase := (ClassifiedName.isWord_baseName h).isAscii
  have hkind := (Declaration.Kind.isWord_name name.kind).isAscii
  have hlength : name.kind.name.length ≤ 5 := by
    cases name.kind <;> decide
  have hfirst : IsAscii (padRight width name.baseName ++ "  ") :=
    (isAscii_padRight hbase width).append (Text.isAscii_spaces 2)
  have hsecond : IsAscii (padRight width name.baseName ++ "  " ++
      padRight kindWidth name.kind.name ++ "  ") :=
    (hfirst.append (isAscii_padRight hkind kindWidth)).append (Text.isAscii_spaces 2)
  refine ⟨⟨width - name.baseName.length, 5 - name.kind.name.length, by omega, by omega, ?_⟩, ?_, ?_⟩
  · rw [tableRow_eq]
    simp only [padRight, spaces, kindWidth, String.append_assoc]
  · refine hfirst.standsAt ?_
      (spaces (5 - name.kind.name.length) ++ "  " ++ name.spelling ++ rowEnd name) ?_
    · rw [String.length_append, length_padRight hwidth]
      rfl
    · rw [tableRow_eq]
      simp only [padRight, spaces, kindWidth, String.append_assoc]
  · refine hsecond.standsAt ?_ (rowEnd name) (tableRow_eq width name)
    simp only [String.length_append, length_padRight hwidth, kindWidth, length_padRight hlength]
    rfl

/-- There is one row for a name in columns of one width. -/
theorem IsRow.eq_tableRow {row : String} (h : IsRow width name row) :
    row = tableRow width name := by
  obtain ⟨nameFill, kindFill, hname, hkind, rfl⟩ := h.columns
  obtain rfl : nameFill = width - name.baseName.length := by omega
  obtain rfl : kindFill = kindWidth - name.kind.name.length := by rw [kindWidth]; omega
  rw [tableRow_eq]
  simp only [padRight, spaces, String.append_assoc]

/-! ### Reading rows -/

/-- The name that a row is for: the second word says how it is declared, and the third is taken
apart. -/
def readRow (row : String) : Option ClassifiedName :=
  match Text.words row.toList with
  | _ :: kind :: spelling :: _ => do
      let kind ← [Declaration.Kind.rule, .aliased].find? fun other => other.name.toList = kind
      (Declaration.classify ⟨String.ofList spelling, kind⟩).toOption
  | _ => none

theorem words_tableRow (h : Name.isUniform Char.isLower name.baseName.toList = true) (width : ℕ) :
    Text.words (tableRow width name).toList = name.baseName.toList :: name.kind.name.toList ::
      name.spelling.toList :: Text.words (rowEnd name).toList := by
  obtain ⟨nameFill, kindFill, hrow⟩ := toList_tableRow width name
  rw [hrow, Text.words_column (ClassifiedName.isWord_baseName h),
    Text.words_column (Declaration.Kind.isWord_name name.kind),
    Text.words_append (ClassifiedName.isWord_spelling h) (rowEnd_cases name).1]

/-- A row is read as the name that it was made from, however wide its columns are. -/
theorem readRow_tableRow (h : Name.isUniform Char.isLower name.baseName.toList = true)
    (width : ℕ) : readRow (tableRow width name) = some name := by
  have hkind : ([Declaration.Kind.rule, .aliased].find? fun other =>
      other.name.toList = name.kind.name.toList) = some name.kind := by
    cases name.kind <;> rfl
  have hclassify : Declaration.classify ⟨name.spelling, name.kind⟩ = .ok name :=
    Declaration.classify_eq_ok_iff.2 ⟨rfl, Decomposition.startsLower_of_isUniform h⟩
  rw [readRow, words_tableRow h]
  simp only [hkind, String.ofList_toList, Option.bind_eq_bind, Option.bind_some, hclassify]
  rfl

theorem newline_notMem_tableRow (h : Name.isUniform Char.isLower name.baseName.toList = true)
    (width : ℕ) : '\n' ∉ (tableRow width name).toList := by
  obtain ⟨nameFill, kindFill, hrow⟩ := toList_tableRow width name
  have hspaces (fill : ℕ) : '\n' ∉ List.replicate fill ' ' := fun hmem =>
    absurd (List.eq_of_mem_replicate hmem) (by decide)
  simp only [hrow, List.mem_append, not_or]
  exact ⟨(ClassifiedName.isWord_baseName h).newline_notMem, hspaces _,
    (Declaration.Kind.isWord_name name.kind).newline_notMem, hspaces _,
    (ClassifiedName.isWord_spelling h).newline_notMem, (rowEnd_cases name).2⟩

/-! ### Tables -/

/-- The rows of a table. -/
def rows (names : List ClassifiedName) : List String := names.map (tableRow (nameWidth names))

theorem text_table (names : List ClassifiedName) :
    text (Listing.names .text true names) = joinLines (rows names) :=
  text_lines (rows names)

variable (h : ∀ name ∈ names, Name.isUniform Char.isLower name.baseName.toList = true)
include h

theorem endedLines_rows : endedLines (joinLines (rows names)) = rows names := by
  refine Text.endedLines_join fun row hrow => ?_
  obtain ⟨name, hname, rfl⟩ := List.mem_map.1 hrow
  exact newline_notMem_tableRow (h name hname) _

/-- The rows of a table are read as the names that it was made from. -/
theorem map_readRow_rows : (rows names).map readRow = names.map some := by
  rw [rows, List.map_map]
  exact List.map_congr_left fun name hname => readRow_tableRow (h name hname) _

theorem utf8ByteSize_baseName : ∀ name ∈ names, name.baseName.utf8ByteSize = name.baseName.length :=
  fun name hname => (ClassifiedName.isWord_baseName (h name hname)).isAscii.utf8ByteSize_eq

theorem forall₂_isRow_rows : List.Forall₂ (IsRow (nameWidth names)) names (rows names) := by
  rw [rows, List.forall₂_map_right_iff, List.forall₂_same]
  intro name hname
  refine isRow_tableRow (h name hname) ?_
  rw [← utf8ByteSize_baseName h name hname]
  exact nameWidth_le_iff.1 le_rfl name hname

/-- Names are told by the text of their table. -/
theorem eq_of_joinLines_rows {others : List ClassifiedName}
    (hothers : ∀ name ∈ others, Name.isUniform Char.isLower name.baseName.toList = true)
    (hrows : joinLines (rows others) = joinLines (rows names)) : others = names := by
  have hlines : rows others = rows names := by
    rw [← endedLines_rows h, ← endedLines_rows hothers, hrows]
  have hread : others.map some = names.map some := by
    rw [← map_readRow_rows h, ← map_readRow_rows hothers, hlines]
  exact List.map_injective_iff.2 (Option.some_injective _) hread

end Listing

/-! ### The command -/

/-- There are flags that ask for a policy. -/
theorem FilterFlags.exists_policy_eq (policy : Policy) :
    ∃ filter : FilterFlags, filter.policy = policy :=
  ⟨⟨policy.showInner, policy.showConditional, !policy.showAlias, !policy.showPinned, false⟩, by
    simp [FilterFlags.policy]⟩

/-- What is selected from a text is selected from its tree. -/
theorem Collected.exists_selects {source : String} {collected : Collected} {policy : Policy}
    {names : List ClassifiedName} (h : Collected.ofSource source = .ok collected)
    (hselect : collected.select policy = .ok names) :
    ∃ tree : Tree, Tree.ofSource source = .ok tree ∧ tree.Selects policy names := by
  obtain ⟨tree, htree, hcollect⟩ := Collected.ofSource_eq_ok_iff.1 h
  obtain ⟨selected, hselected⟩ := Tree.exists_selects htree policy
  obtain ⟨other, hother, hselect'⟩ := hselected.select
  obtain rfl : collected = other := Except.ok.inj (hcollect.symm.trans hother)
  obtain rfl : names = selected := Except.ok.inj (hselect.symm.trans hselect')
  exact ⟨tree, htree, hselected⟩

namespace Command

variable {source : String} {tree : Tree}

/-- A command prints one text. -/
theorem Prints.unique {command : Command} {output output' : String}
    (h : command.Prints source output) (h' : command.Prints source output') : output = output' :=
  congrArg (fun run => run.1.written) (h.symm.trans h')

/-- **The table is aligned, and tells the names.**  On a text with a tree, and for every policy, the
names with their markers are printed as a table with one row for each name that is selected, in
their order.  The width of its first column is the length of the longest base name.  In every row
the base name, the way of declaring and the spelling stand in columns that begin at the same places,
counted in characters or in bytes, and the words for the markers follow if there are any.  Each row
is read as the name that it is for.  So two tables with one text list the same names, whatever texts
and flags they come from. -/
theorem prints_table (htree : Tree.ofSource source = .ok tree) (policy : Policy) :
    ∃ collected names width rows, Collected.ofSource source = .ok collected ∧
      collected.select policy = .ok names ∧
      (∃ filter : FilterFlags, filter.policy = policy) ∧
      (∀ file (filter : FilterFlags), filter.policy = policy →
        (Command.names file filter .text true).Prints source (joinLines rows)) ∧
      endedLines (joinLines rows) = rows ∧
      (∀ name ∈ names, name.baseName.length ≤ width) ∧
      (names ≠ [] → ∃ name ∈ names, name.baseName.length = width) ∧
      List.Forall₂ (Listing.IsRow width) names rows ∧
      rows.map Listing.readRow = names.map some ∧
      ∀ source' file' (filter' : FilterFlags) collected' names',
        Collected.ofSource source' = .ok collected' →
        collected'.select filter'.policy = .ok names' →
        (Command.names file' filter' .text true).Prints source' (joinLines rows) →
        names' = names := by
  obtain ⟨names, hnames⟩ := Tree.exists_selects htree policy
  obtain ⟨collected, hcollected, hselect⟩ := hnames.ofSource htree
  have huniform := hnames.isUniform
  have hlength := Listing.utf8ByteSize_baseName huniform
  refine ⟨collected, names, Listing.nameWidth names, Listing.rows names, hcollected, hselect,
    FilterFlags.exists_policy_eq policy, ?_, Listing.endedLines_rows huniform, ?_, ?_,
    Listing.forall₂_isRow_rows huniform, Listing.map_readRow_rows huniform, ?_⟩
  · rintro file filter rfl
    rw [← Listing.text_table]
    exact prints_names htree hnames file .text true
  · intro name hname
    rw [← hlength name hname]
    exact Listing.nameWidth_le_iff.1 le_rfl name hname
  · intro hne
    obtain ⟨name, hname, hwidth⟩ := Listing.exists_nameWidth_eq hne
    exact ⟨name, hname, (hlength name hname).symm.trans hwidth⟩
  · intro source' file' filter' collected' names' hcollected' hselect' hprints
    obtain ⟨tree', htree', hnames'⟩ := Collected.exists_selects hcollected' hselect'
    have htext := (prints_names htree' hnames' file' .text true).unique hprints
    rw [Listing.text_table] at htext
    exact Listing.eq_of_joinLines_rows huniform hnames'.isUniform htext

set_option maxRecDepth 4000 in
/-- The table of a marked rule and an alias. -/
theorem prints_table_of_two :
    ∃ tree, Tree.ofSource "!_ab: c -> d\n" = .ok tree ∧
      (Command.names "names.txt" { all := true } .text true).Prints "!_ab: c -> d\n"
        "ab  rule   !_ab  pinned, inner\nd   alias  d\n" := by
  have hcollected : Collected.ofSource "!_ab: c -> d\n" = .ok ⟨["!_ab"], ["d"]⟩ := by cbv
  have hselect : Collected.select ⟨["!_ab"], ["d"]⟩ .everything =
      .ok [⟨"ab", ⟨true, .inner⟩, .rule⟩, ⟨"d", .bare, .aliased⟩] := by decide
  cases htree : Tree.ofSource "!_ab: c -> d\n" with
  | error failure =>
      rw [Collected.ofSource, htree] at hcollected
      contradiction
  | ok tree =>
      obtain ⟨collected, names, width, rows, hcollected', hselect', -, hprints, -, hle, hmax, hrows,
        -⟩ := prints_table htree .everything
      obtain rfl := Except.ok.inj (hcollected'.symm.trans hcollected)
      obtain rfl := Except.ok.inj (hselect'.symm.trans hselect)
      have hwidth : width = 2 := by
        obtain ⟨name, hname, hlength⟩ := hmax (by simp)
        have hge : 2 ≤ width := hle _ List.mem_cons_self
        have hlong : ∀ name ∈ [ClassifiedName.mk "ab" ⟨true, .inner⟩ .rule, ⟨"d", .bare, .aliased⟩],
            name.baseName.length ≤ 2 := by
          rw [List.forall_mem_cons, List.forall_mem_singleton]
          decide
        exact Nat.le_antisymm (hlength ▸ hlong name hname) hge
      subst hwidth
      cases hrows with
      | cons hfirst hrest =>
          cases hrest with
          | cons hsecond hnil =>
              cases hnil
              have hprints := hprints "names.txt" { all := true } rfl
              rw [hfirst.eq_tableRow, hsecond.eq_tableRow] at hprints
              exact ⟨tree, rfl, hprints⟩

end Command

end GrammarCatalog
