/-
**Commands with limited output.**

When the file of a command cannot be read or has no tree, this is what the command fails with,
however much may be written, and nothing is written.  Otherwise the command succeeds exactly if all
of its output may be written.  If not, text could not be written, and JSON could not be serialized
unless only its last line feed was too much.

Main definitions:

* `GrammarCatalog.Command.writesJson` — a command writes JSON;
* `GrammarCatalog.Output.EndsWithin` — **how output ends when it is limited**;
* `GrammarCatalog.Output.IsOutput` — pieces are lines of text, or a JSON value.

Main results:

* `GrammarCatalog.Output.IsOutput.endsWithin` — output ends that way, however it is cut;
* `GrammarCatalog.Command.run_within` — **how commands end when output is limited**.
-/

import GrammarCatalog.Proofs.CommandLine.Outputs
import GrammarCatalog.Proofs.CommandLine.Reports

set_option relaxedAutoImplicit false
set_option autoImplicit false

namespace GrammarCatalog

/-- The command writes JSON. -/
def Command.writesJson : Command → Bool
  | .names _ _ format _ | .startSymbols _ _ _ format => format == .json
  | .tree _ _ => false

namespace Output

open Sink (closedCause)

/-! ### How output ends -/

/-- The sink and the problem after some output was written to an empty sink with a limit. -/
structure EndsWithin (json : Bool) (output : String) (limit : ℕ) (after : Sink × Option Problem) :
    Prop where
  /-- There is no problem exactly if all of the output may be written. -/
  succeeds_iff : after.2 = none ↔ output.utf8ByteSize ≤ limit
  /-- All of the output is written then. -/
  written_eq : after.2 = none → after.1 = ⟨output, some limit⟩
  /-- A beginning of the output is written in any case, and no more than may be. -/
  written : (∃ rest, output = after.1.written ++ rest) ∧ after.1.written.utf8ByteSize ≤ limit
  /-- Text that is too long could not be written. -/
  text : json = false → limit < output.utf8ByteSize →
    after.2 = some ⟨.unwritable closedCause, none⟩
  /-- JSON that is too long could not be serialized, unless it is its last line feed alone that is
  too much and could not be written. -/
  json : json = true → ∃ body, output = body ++ "\n" ∧
    (limit < body.utf8ByteSize → after.2 = some ⟨.unserializable closedCause, none⟩) ∧
    (body.utf8ByteSize ≤ limit → limit < output.utf8ByteSize →
      after.2 = some ⟨.unwritable closedCause, none⟩)

/-- The pieces are lines of text, or a JSON value and a line feed. -/
inductive IsOutput : Bool → List Piece → Prop
  /-- All of the pieces are text. -/
  | lines {pieces : List Piece} (h : ∀ piece ∈ pieces, piece.role = .plain) : IsOutput false pieces
  /-- The pieces are a JSON value and a line feed. -/
  | value (value : Json) : IsOutput true (Listing.json value)

variable {limit : ℕ} {json : Bool} {pieces parts : List Piece}

theorem hasRoom_limited {more : String} :
    (Sink.mk "" (some limit)).HasRoom more ↔ more.utf8ByteSize ≤ limit := by
  simp [Sink.HasRoom, Sink.extend]

/-- A limit is kept, and there is a problem exactly if this took leaving something out. -/
theorem writeAll_limited (limit : ℕ) (parts : List Piece) :
    ((Sink.mk "" (some limit)).writeAll parts).2 = none ∧ (text parts).utf8ByteSize ≤ limit ∧
        ((Sink.mk "" (some limit)).writeAll parts).1 = ⟨text parts, some limit⟩ ∨
      ∃ before piece after, parts = before ++ piece :: after ∧
        (text before).utf8ByteSize ≤ limit ∧ limit < (text parts).utf8ByteSize ∧
        (Sink.mk "" (some limit)).writeAll parts =
          (⟨text before, some limit⟩, some (piece.role.problem closedCause)) := by
  by_cases hroom : (text parts).utf8ByteSize ≤ limit
  · refine Or.inl ?_
    rw [Sink.writeAll_of_hasRoom (hasRoom_limited.2 hroom)]
    exact ⟨rfl, hroom, by simp [Sink.extend]⟩
  · obtain ⟨before, piece, after, hparts, hbefore, -, hwrite⟩ :=
      Sink.exists_writeAll_eq (hasRoom_limited.2 (by simp)) (mt hasRoom_limited.1 hroom)
    refine Or.inr ⟨before, piece, after, hparts, hasRoom_limited.1 hbefore, by omega, ?_⟩
    rw [hwrite]
    simp [Sink.extend]

/-- What goes wrong with text that is too long. -/
theorem problem_of_plain (h : ∀ piece ∈ pieces, piece.role = .plain)
    (hlong : limit < (text pieces).utf8ByteSize) :
    ((Sink.mk "" (some limit)).writeAll pieces).2 = some ⟨.unwritable closedCause, none⟩ := by
  rcases writeAll_limited limit pieces with ⟨-, hshort, -⟩ | ⟨before, piece, after, hpieces, -, -,
    hwrite⟩
  · omega
  · rw [hwrite, h piece (by rw [hpieces]; simp)]
    rfl

/-- Of two pieces, the first one that goes beyond the limit says what goes wrong. -/
theorem problem_of_pair (limit : ℕ) (first second : Piece) :
    (limit < first.text.utf8ByteSize →
        ((Sink.mk "" (some limit)).writeAll [first, second]).2 =
          some (first.role.problem closedCause)) ∧
      (first.text.utf8ByteSize ≤ limit →
        limit < (first.text ++ second.text).utf8ByteSize →
          ((Sink.mk "" (some limit)).writeAll [first, second]).2 =
            some (second.role.problem closedCause)) := by
  rw [Sink.writeAll]
  constructor
  · intro hlong
    have hfirst : ¬(Sink.mk "" (some limit)).HasRoom first.text :=
      mt hasRoom_limited.1 (Nat.not_le.2 hlong)
    rw [Sink.write_of_not_hasRoom hfirst]
  · intro hshort hlong
    have hfirst : (Sink.mk "" (some limit)).HasRoom first.text := hasRoom_limited.2 hshort
    have hsecond : ¬((Sink.mk "" (some limit)).extend first.text).HasRoom second.text := by
      rw [Sink.hasRoom_extend]
      exact mt hasRoom_limited.1 (Nat.not_le.2 hlong)
    rw [Sink.write_of_hasRoom hfirst]
    simp only [Sink.writeAll, Sink.write_of_not_hasRoom hsecond]

/-- **Output ends the same way however finely its pieces are cut.** -/
theorem IsOutput.endsWithin (h : IsOutput json pieces) (hcuts : Cuts pieces parts) (limit : ℕ) :
    EndsWithin json (text pieces) limit ((Sink.mk "" (some limit)).writeAll parts) := by
  have hempty : (Sink.mk "" (some limit)).HasRoom "" := hasRoom_limited.2 (by simp)
  have hproblem := hcuts.problem_writeAll hempty
  rw [← hcuts.text_eq]
  refine ⟨?_, ?_, ?_, ?_, ?_⟩
  · rcases writeAll_limited limit parts with ⟨hnone, hshort, -⟩ | ⟨_, _, _, -, -, hlong, hwrite⟩
    · simp [hnone, hshort]
    · rw [hwrite]
      simpa using hlong
  · intro hnone
    rcases writeAll_limited limit parts with ⟨-, -, hwritten⟩ | ⟨_, _, _, -, -, -, hwrite⟩
    · exact hwritten
    · rw [hwrite] at hnone
      contradiction
  · rcases writeAll_limited limit parts with ⟨-, hshort, hwritten⟩ | ⟨before, piece, after, hparts,
      hbefore, -, hwrite⟩
    · rw [hwritten]
      exact ⟨⟨"", by simp⟩, hshort⟩
    · rw [hwrite]
      exact ⟨⟨text (piece :: after), by rw [← text_append, ← hparts]⟩, hbefore⟩
  · intro hjson hlong
    cases h with
    | value => contradiction
    | lines hplain =>
        rw [hcuts.text_eq] at hlong
        rw [hproblem]
        exact problem_of_plain hplain hlong
  · intro hjson
    cases h with
    | lines => contradiction
    | value value =>
        rw [hcuts.text_eq, hproblem]
        rw [Listing.text_json]
        exact ⟨value.pretty, rfl, problem_of_pair limit ⟨.serialized, value.pretty⟩ ⟨.plain, "\n"⟩⟩

end Output

/-! ### How commands end -/

namespace Command

open Output

variable {source : String} {tree : Tree}

/-- A command has output on the tree of a text. -/
theorem exists_outputOfTree (htree : Tree.ofSource source = .ok tree) (command : Command) :
    ∃ pieces, command.outputOfTree tree = .ok pieces ∧ IsOutput command.writesJson pieces := by
  have hlines : ∀ entries, IsOutput false (Listing.lines entries) := by
    intro entries
    refine .lines fun piece hpiece => ?_
    obtain ⟨entry, -, rfl⟩ := List.mem_map.1 hpiece
    rfl
  have htexts : ∀ format entries, IsOutput (format == .json) (Listing.texts format entries) := by
    intro format entries
    cases format with
    | text => exact hlines entries
    | json => exact .value _
  cases command with
  | tree file style => exact ⟨_, rfl, .lines (by simp)⟩
  | startSymbols file extra filter format =>
      obtain ⟨names, hnames⟩ := Tree.exists_selects htree filter.policy
      exact ⟨_, outputOfTree_startSymbols hnames file extra format, htexts format _⟩
  | names file filter format markers =>
      obtain ⟨names, hnames⟩ := Tree.exists_selects htree filter.policy
      refine ⟨_, outputOfTree_names hnames file format markers, ?_⟩
      cases markers with
      | false => exact htexts format _
      | true =>
          cases format with
          | text => exact hlines _
          | json => exact .value _

/-- **How commands end when output is limited.**  If the file cannot be read or its text has no
tree, the command fails with that, and nothing is written.  Otherwise there is output, which the
command writes in full if there is no limit, and within a limit it ends as such output does, however
finely it is cut into pieces. -/
theorem run_within (command : Command) (content : Except ReadError String) (limit : ℕ) :
    (∃ error, content = .error error ∧
      command.run content ⟨"", some limit⟩ = (⟨"", some limit⟩,
        some (.problem ⟨.unreadable command.file error.cause, none⟩))) ∨
    (∃ source error, content = .ok source ∧ Tree.ofSource source = .error (.rejected error) ∧
      command.run content ⟨"", some limit⟩ = (⟨"", some limit⟩,
        some (.problem (.ofParseError command.file error)))) ∨
    ∃ source tree pieces, content = .ok source ∧ Tree.ofSource source = .ok tree ∧
      command.plan content = .ok pieces ∧ command.Prints source (text pieces) ∧
      (∃ after, command.run content ⟨"", some limit⟩ =
          (after.1, after.2.map CommandFailure.problem) ∧
        EndsWithin command.writesJson (text pieces) limit after) ∧
      ∀ parts, Cuts pieces parts → EndsWithin command.writesJson (text pieces) limit
        ((Sink.mk "" (some limit)).writeAll parts) := by
  cases content with
  | error error => exact Or.inl ⟨error, rfl, rfl⟩
  | ok source =>
      refine Or.inr ?_
      cases htree : Tree.ofSource source with
      | error failure =>
          obtain ⟨error, rfl⟩ := Tree.exists_rejected_of_error htree
          refine Or.inl ⟨source, error, rfl, htree, ?_⟩
          rw [run, plan_of_rejected htree]
      | ok tree =>
          obtain ⟨pieces, houtput, hshape⟩ := exists_outputOfTree htree command
          have hplan := plan_of_tree htree houtput
          refine Or.inr ⟨source, tree, pieces, rfl, htree, hplan, run_of_plan hplan,
            ⟨(Sink.mk "" (some limit)).writeAll pieces, ?_,
              hshape.endsWithin (Cuts.refl pieces) limit⟩,
            fun parts hcuts => hshape.endsWithin hcuts limit⟩
          rw [run, hplan]

end Command

end GrammarCatalog
