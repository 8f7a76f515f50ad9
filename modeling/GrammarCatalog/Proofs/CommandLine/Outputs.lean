/-
**What commands print.**

A command on a text with a tree prints what the catalogue says of the text.  The list of names, the
list of start symbols and the records of the names are each the same whether they are asked for
directly or read off the output: lines of text are split into the names again, because no name
holds a line feed, and JSON is read as the list, whatever characters its entries hold.

Main definitions:

* `GrammarCatalog.Command.Prints` — a command prints a text;
* `GrammarCatalog.Text.endedLines` — the lines of a text in which every line is ended;
* `GrammarCatalog.Tree.Selects` — the names that a policy selects from a tree.

Main results:

* `GrammarCatalog.Text.endedLines_join` — lines are split into what they were made from;
* `GrammarCatalog.Json.parse_listing` — a JSON list is read as what it was made from;
* `GrammarCatalog.Command.prints_what_is_selected` — **commands print what is selected**.
-/

import GrammarCatalog.CommandLine.Run
import GrammarCatalog.Proofs.CommandLine.Sinks
import GrammarCatalog.Proofs.Declaration.DeclaredNames
import GrammarCatalog.Proofs.Declaration.JsonForms
import GrammarCatalog.Proofs.Declaration.NoFault

set_option relaxedAutoImplicit false
set_option autoImplicit false

namespace GrammarCatalog

open Output (text)

/-! ### Lines and lists -/

/-- The lines of a text in which every line is ended by a line feed. -/
def Text.endedLines (text : String) : List String :=
  (text.toList.splitOn '\n').dropLast.map String.ofList

/-- Entries on lines of their own. -/
def Text.joinLines (entries : List String) : String := String.join (entries.map (· ++ "\n"))

namespace Text

theorem splitOn_joinLines {entries : List String} (h : ∀ entry ∈ entries, '\n' ∉ entry.toList) :
    (joinLines entries).toList.splitOn '\n' = entries.map String.toList ++ [[]] := by
  induction entries with
  | nil => rfl
  | cons entry entries ih =>
      rw [List.forall_mem_cons] at h
      have hjoin : (joinLines (entry :: entries)).toList =
          entry.toList ++ '\n' :: (joinLines entries).toList := by
        simp [joinLines]
      rw [hjoin, List.splitOn_append_cons_self, List.splitOn_eq_singleton h.1, ih h.2]
      rfl

/-- Lines are split into the entries they were made from. -/
theorem endedLines_join {entries : List String} (h : ∀ entry ∈ entries, '\n' ∉ entry.toList) :
    endedLines (joinLines entries) = entries := by
  rw [endedLines, splitOn_joinLines h, List.dropLast_concat, List.map_map]
  simp

end Text

open Text (endedLines endedLines_join joinLines)

theorem Listing.text_lines (entries : List String) : text (lines entries) = joinLines entries := by
  rw [text, lines, List.map_map]
  rfl

theorem Listing.text_json (value : Json) : text (json value) = value.pretty ++ "\n" := by
  simp [json]

/-- A JSON list is read as what it was made from. -/
theorem Json.parse_listing {value : Json} (h : value.IsNumberless) :
    Json.parse (text (Listing.json value)) = some value := by
  rw [Listing.text_json]
  exact parse_pretty h (by simp [isBlank])

theorem Listing.isNumberless_record (name : ClassifiedName) : (record name).IsNumberless := by
  refine Json.isNumberless_ofFields ?_
  simp only [List.forall_mem_cons, List.not_mem_nil, false_implies, implies_true, and_true]
  exact ⟨Json.isNumberless_ofString _, Json.isNumberless_ofString _, Json.isNumberless_ofString _,
    .bool _, .bool _, .bool _⟩

/-- A base name is on one line. -/
theorem Name.newline_notMem_of_isUniform {name : String}
    (h : Name.isUniform Char.isLower name.toList = true) : '\n' ∉ name.toList := by
  intro hmem
  have hpart := Lexeme.isPart_of_isUniform h '\n' hmem
  revert hpart
  decide

/-! ### Names that are selected -/

/-- A policy selects names from a tree, by what is collected from it. -/
structure Tree.Selects (tree : Tree) (policy : Policy) (names : List ClassifiedName) : Prop where
  /-- The names are selected from what is collected. -/
  select : ∃ collected, tree.collect = .ok collected ∧ collected.select policy = .ok names
  /-- Their base names begin with a letter, and go on with letters, digits and underscores. -/
  isUniform : ∀ name ∈ names, Name.isUniform Char.isLower name.baseName.toList = true

namespace Tree

variable {source : String} {tree : Tree} {policy : Policy} {names : List ClassifiedName}

/-- Every policy selects names from the tree of a text. -/
theorem exists_selects (h : ofSource source = .ok tree) (policy : Policy) :
    ∃ names, tree.Selects policy names := by
  obtain ⟨collected, hcollect, hdeclared⟩ := exists_collect_eq_ok h
  obtain ⟨names, hselect, huniform⟩ := Collected.exists_select_eq_ok policy hdeclared
  exact ⟨names, ⟨collected, hcollect, hselect⟩, huniform⟩

namespace Selects

theorem newline_notMem (h : tree.Selects policy names) :
    ∀ entry ∈ names.map ClassifiedName.baseName, '\n' ∉ entry.toList := by
  intro entry hentry
  obtain ⟨name, hname, rfl⟩ := List.mem_map.1 hentry
  exact Name.newline_notMem_of_isUniform (h.isUniform name hname)

theorem ofSource (h : tree.Selects policy names) (htree : Tree.ofSource source = .ok tree) :
    ∃ collected, Collected.ofSource source = .ok collected ∧
      collected.select policy = .ok names := by
  obtain ⟨collected, hcollect, hselect⟩ := h.select
  exact ⟨collected, Collected.ofSource_eq_ok_iff.2 ⟨tree, htree, hcollect⟩, hselect⟩

theorem ruleNames (h : tree.Selects policy names) (htree : Tree.ofSource source = .ok tree) :
    ruleNames source policy = .ok (names.map ClassifiedName.baseName) := by
  obtain ⟨collected, hsource, hselect⟩ := h.ofSource htree
  rw [GrammarCatalog.ruleNames, hsource]
  change (collected.baseNames policy).mapError Failure.broken = _
  rw [Collected.baseNames, hselect]
  rfl

end Selects

end Tree

/-! ### Commands -/

namespace Command

variable {source : String} {tree : Tree} {names : List ClassifiedName}

/-- A command on a text succeeds and prints another text. -/
def Prints (command : Command) (source output : String) : Prop :=
  command.run (.ok source) {} = (⟨output, none⟩, none)

/-- A command on a text with a tree writes its output on the tree. -/
theorem plan_of_tree {command : Command} {pieces : List Output.Piece}
    (htree : Tree.ofSource source = .ok tree) (h : command.outputOfTree tree = .ok pieces) :
    command.plan (.ok source) = .ok pieces := by
  change command.output source = _
  rw [output, htree]
  change (command.outputOfTree tree).mapError CommandFailure.broken = _
  rw [h]
  rfl

theorem run_of_plan {command : Command} {content : Except ReadError String}
    {pieces : List Output.Piece} (h : command.plan content = .ok pieces) :
    command.run content {} = (⟨text pieces, none⟩, none) := by
  have hroom : Output.Sink.HasRoom {} (text pieces) := rfl
  simp [run, h, Output.Sink.writeAll_of_hasRoom hroom, Output.Sink.extend]

theorem outputOfTree_names {filter : FilterFlags} (h : tree.Selects filter.policy names)
    (file : String) (format : Format) (markers : Bool) :
    (Command.names file filter format markers).outputOfTree tree =
      .ok (Listing.names format markers names) := by
  obtain ⟨collected, hcollect, hselect⟩ := h.select
  simp [outputOfTree, hcollect, hselect, bind, Except.bind, pure, Except.pure]

theorem outputOfTree_startSymbols {filter : FilterFlags} (h : tree.Selects filter.policy names)
    (file : String) (extra : List String) (format : Format) :
    (Command.startSymbols file extra filter format).outputOfTree tree =
      .ok (Listing.texts format
        (GrammarCatalog.startSymbols (names.map ClassifiedName.baseName) extra)) := by
  obtain ⟨collected, hcollect, hselect⟩ := h.select
  simp [outputOfTree, hcollect, Collected.baseNames, hselect, bind, Except.bind, pure,
    Except.pure, Except.map]

theorem prints_names {filter : FilterFlags} (htree : Tree.ofSource source = .ok tree)
    (h : tree.Selects filter.policy names) (file : String) (format : Format) (markers : Bool) :
    (Command.names file filter format markers).Prints source
      (text (Listing.names format markers names)) :=
  run_of_plan (plan_of_tree htree (outputOfTree_names h file format markers))

theorem prints_startSymbols {filter : FilterFlags} (htree : Tree.ofSource source = .ok tree)
    (h : tree.Selects filter.policy names) (file : String) (extra : List String)
    (format : Format) :
    (Command.startSymbols file extra filter format).Prints source (text (Listing.texts format
      (GrammarCatalog.startSymbols (names.map ClassifiedName.baseName) extra))) :=
  run_of_plan (plan_of_tree htree (outputOfTree_startSymbols h file extra format))

/-- **Commands print what is selected.**  The flags ask for a policy: to list all names, or else not
those that are marked inner or conditional unless their flags are given, and aliases and pinned
names unless they are hidden.  On a text with a tree, the names that this policy selects are
printed one on each line, and the lines of that output are the names again; their JSON form is read
as the list of the names, and the JSON form with markers as one record for each of the names, in
their order.  The start symbols are printed one on each line, and their JSON form is read as the
list of them, whatever further names were given. -/
theorem prints_what_is_selected (htree : Tree.ofSource source = .ok tree) (file : String)
    (filter : FilterFlags) (extra : List String) :
    filter.policy = ⟨filter.all || filter.showInner, filter.all || filter.showConditional,
      filter.all || !filter.hideAlias, filter.all || !filter.hidePinned⟩ ∧
    ∃ collected names selected, Collected.ofSource source = .ok collected ∧
      collected.select filter.policy = .ok names ∧
      ruleNames source filter.policy = .ok selected ∧
      selected = names.map ClassifiedName.baseName ∧
      (Command.names file filter .text false).Prints source (joinLines selected) ∧
      endedLines (joinLines selected) = selected ∧
      (∃ output, (Command.names file filter .json false).Prints source output ∧
        Json.parse output = some (.ofStrings selected)) ∧
      (∃ output, (Command.names file filter .json true).Prints source output ∧
        Json.parse output = some (.array (names.map fun name =>
          .ofFields [("name", .ofString name.baseName), ("spelling", .ofString name.spelling),
            ("kind", .ofString name.kind.name), ("pinned", .bool name.isPinned),
            ("inner", .bool name.isInner), ("conditional", .bool name.isConditional)]))) ∧
      (Command.startSymbols file extra filter .text).Prints source
        (joinLines (GrammarCatalog.startSymbols selected extra)) ∧
      ∃ output, (Command.startSymbols file extra filter .json).Prints source output ∧
        Json.parse output = some (.ofStrings (GrammarCatalog.startSymbols selected extra)) := by
  obtain ⟨names, hnames⟩ := Tree.exists_selects htree filter.policy
  obtain ⟨collected, hcollected, hselect⟩ := hnames.ofSource htree
  have hrecord : ∀ value ∈ names.map Listing.record, value.IsNumberless := by
    intro value hvalue
    obtain ⟨name, -, rfl⟩ := List.mem_map.1 hvalue
    exact Listing.isNumberless_record name
  refine ⟨filter.policy_eq, collected, names, _, hcollected, hselect, hnames.ruleNames htree, rfl,
    ?_, endedLines_join hnames.newline_notMem, ⟨_, prints_names htree hnames file .json false, ?_⟩,
    ⟨_, prints_names htree hnames file .json true, ?_⟩, ?_,
    ⟨_, prints_startSymbols htree hnames file extra .json, ?_⟩⟩
  · rw [← Listing.text_lines]
    exact prints_names htree hnames file .text false
  · exact Json.parse_listing (Json.isNumberless_ofStrings _)
  · exact Json.parse_listing (.array hrecord)
  · rw [← Listing.text_lines]
    exact prints_startSymbols htree hnames file extra .text
  · exact Json.parse_listing (Json.isNumberless_ofStrings _)

set_option maxRecDepth 4000 in
/-- Where pinned names and aliases are hidden, an inner name is printed without its mark, and a
further start symbol that holds a line feed is one entry of the JSON list. -/
theorem prints_neither_pinned_nor_aliased :
    ∃ tree, Tree.ofSource "!a: b -> c\n_d: a\n" = .ok tree ∧
      (Command.names "names.txt" { showInner := true, hideAlias := true, hidePinned := true }
        .text false).Prints "!a: b -> c\n_d: a\n" "d\n" ∧
      ∃ output, (Command.startSymbols "names.txt" ["\"\n"]
          { showInner := true, hideAlias := true, hidePinned := true } .json).Prints
            "!a: b -> c\n_d: a\n" output ∧
        Json.parse output = some (.ofStrings ["\"\n", "d"]) := by
  have hnames : ruleNames "!a: b -> c\n_d: a\n"
      (FilterFlags.policy { showInner := true, hideAlias := true, hidePinned := true }) =
        .ok ["d"] := by cbv
  have hsymbols : GrammarCatalog.startSymbols ["d"] ["\"\n"] = ["\"\n", "d"] := by decide
  cases htree : Tree.ofSource "!a: b -> c\n_d: a\n" with
  | error failure =>
      rw [ruleNames, Collected.ofSource, htree] at hnames
      contradiction
  | ok tree =>
      obtain ⟨-, collected, names, selected, -, -, hselected, -, hprints, -, -, -, -, hstart⟩ :=
        prints_what_is_selected htree "names.txt"
          { showInner := true, hideAlias := true, hidePinned := true } ["\"\n"]
      obtain rfl := Except.ok.inj (hselected.symm.trans hnames)
      rw [hsymbols] at hstart
      exact ⟨tree, rfl, hprints, hstart⟩

end Command

end GrammarCatalog
