/-
**Reports of parse errors.**

An error gives the place of a token, what is wrong with it, and the line that it is on.  The line is
the one of that number among the lines of the text, it has something visible on it, and the column
says how many characters of it stand before the token.  Messages hold no line feed, for what they
quote is part of a token.  So the report of an error has three lines: what is wrong, where, and the
line of the text.

Main definitions:

* `GrammarCatalog.ParseError.Shows` — **an error shows a line of a text**, and a place on it;
* `GrammarCatalog.ParseError.reportLines` — the lines of a report.

Main results:

* `GrammarCatalog.Refusal.newline_notMem_message` — messages hold no line feed;
* `GrammarCatalog.Tree.exists_refused_of_error` — an error is a refusal, at a token that is shown;
* `GrammarCatalog.Problem.splitOn_report` — the report of an error has three lines;
* `GrammarCatalog.Tree.report_of_error` — **where an error is, and its report**.
-/

import GrammarCatalog.CommandLine.Run
import GrammarCatalog.Proofs.Declaration.NoFault
import GrammarCatalog.Proofs.Token.Shown
import GrammarCatalog.Proofs.Tree.Reasons

set_option relaxedAutoImplicit false
set_option autoImplicit false

namespace GrammarCatalog

open Text (byteLength firstLine isBlank lastLine)

/-! ### Messages -/

/-- Texts without a line feed, one behind the other. -/
theorem Text.newline_notMem_append {first second : String} (h : '\n' ∉ first.toList)
    (h' : '\n' ∉ second.toList) : '\n' ∉ (first ++ second).toList := by
  rw [String.toList_append, List.mem_append, not_or]
  exact ⟨h, h'⟩

open Text (newline_notMem_append)

/-- What a defect of spelling quotes is part of the text. -/
theorem LexicalError.newline_notMem_message {cause : LexicalError} {text rest : List Char}
    (h : cause.ReadFrom text rest) (htext : '\n' ∉ text) : '\n' ∉ cause.message.toList := by
  cases cause with
  | loneMinus | unterminatedString | unterminatedRegexp | numberTooLarge | numberTooSmall
  | missingDirectiveName => decide +kernel
  | unknownDirective name =>
      obtain ⟨rfl, -⟩ := h
      exact newline_notMem_append (by decide +kernel) (List.not_mem_of_not_mem_cons htext)
  | invalidName name =>
      obtain ⟨marks, rfl, -⟩ := h
      rw [List.mem_append, not_or] at htext
      exact newline_notMem_append (by decide +kernel) htext.2
  | inlinedAndConditional spelling | markedTerminal spelling =>
      obtain ⟨rfl, -⟩ := h
      exact newline_notMem_append (by decide +kernel) htext
  | unexpectedCharacter c =>
      obtain rfl := h
      exact newline_notMem_append (by decide +kernel) (by simpa using htext)

theorem TokenKind.newline_notMem_describe (kind : TokenKind) : '\n' ∉ kind.describe.toList := by
  cases kind with
  | punctuation sign => cases sign <;> decide +kernel
  | _ =>
      rw [describe]
      decide +kernel

theorem Expectation.newline_notMem_phrase {expected : Expectation}
    (h : expected = .upperString ∨ expected.IsProper) : '\n' ∉ expected.phrase.toList := by
  cases expected with
  | definitionAfter directive =>
      obtain ⟨which, rfl⟩ := h.resolve_left (by simp)
      cases which <;> decide +kernel
  | sign which => exact TokenKind.newline_notMem_describe _
  | _ => decide +kernel

/-- The message of a refusal holds no line feed, if the refused token is on one line. -/
theorem Refusal.newline_notMem_message {reason : Refusal} {kind : TokenKind}
    {text rest : List Char} (h : reason.Concerns kind) (hread : kind.ReadFrom text rest)
    (htext : kind.endsStatement = false → '\n' ∉ text) : '\n' ∉ reason.message.toList := by
  cases reason with
  | malformed cause =>
      obtain rfl := h
      exact LexicalError.newline_notMem_message hread (htext rfl)
  | unexpected expected found =>
      have hphrase := Expectation.newline_notMem_phrase (h.2.imp_right And.left)
      have hlead : '\n' ∉ ("expected " ++ expected.phrase).toList :=
        newline_notMem_append (by decide +kernel) hphrase
      exact newline_notMem_append (newline_notMem_append hlead (by decide +kernel))
        found.newline_notMem_describe
  | aliasOutsideRule | nestedTooDeeply => decide +kernel
  | unknownDirective name =>
      obtain rfl := h
      obtain ⟨rfl, -⟩ := hread
      exact newline_notMem_append (by decide +kernel) (List.not_mem_of_not_mem_cons (htext rfl))

/-- A token is read from characters that are on one line, unless it ends a statement. -/
theorem Token.exists_readFrom_of_mem (source : String) : ∀ token ∈ ofSource source,
    ∃ text rest, token.kind.ReadFrom text rest ∧
      (token.kind.endsStatement = false → '\n' ∉ text) := by
  refine @Scan.forall_mem_tokens (fun _ => True) _ ?_ _ trivial
  intro scan token after _ hstep
  refine ⟨?_, trivial⟩
  cases hstep with
  | finish _ _ => exact ⟨[], [], ⟨rfl, rfl⟩, by simp⟩
  | @newline _ breaks rest _ _ hbreaks hfirst hnext _ _ =>
      refine ⟨breaks, rest, ⟨hfirst, hbreaks, hnext⟩, fun hkind => ?_⟩
      contradiction
  | @lexeme _ c cs _ _ hc _ =>
      exact ⟨_, _, Lexeme.isRead_scan scan.opening c cs,
        fun _ => Lexeme.newline_notMem_text_scan hc scan.opening cs⟩

/-! ### Refusals -/

namespace Tree

variable {source : String} {failure : Failure}

/-- An error is a refusal, with a message on one line and at a token that is shown. -/
theorem exists_refused_of_error (h : ofSource source = .error failure) :
    ∃ (reason : Refusal) (before : List Token) (token : Token) (after : List Token),
      Token.significant source = before ++ token :: after ∧
      failure = reason.toFailure token.span source ∧ '\n' ∉ reason.message.toList ∧
      token.IsShown source.toList := by
  obtain ⟨reason, before, token, after, hsignificant, hfailure, hreason, hwithin⟩ :=
    exists_fits_of_error h
  have hmem : token ∈ Token.ofSource source := by
    have hmem : token ∈ Token.significant source := by simp [hsignificant]
    exact List.mem_of_mem_filter hmem
  refine ⟨reason, before, token, after, hsignificant, hfailure, ?_, ?_⟩
  · obtain ⟨text, rest, hread, hline⟩ := Token.exists_readFrom_of_mem source token hmem
    exact Refusal.newline_notMem_message hreason.concerns hread hline
  · rcases hwithin with hkind | ⟨front, last, rfl, hlast⟩
    · exact Token.isShown_of_mem source token hmem hkind
    · rw [List.append_assoc, List.singleton_append] at hsignificant
      exact Token.isShown_of_behind hsignificant hlast

end Tree

/-! ### The line of an error -/

namespace ParseError

/-- **An error shows a line of a text**, and a place on it: the line has the number that the error
gives and is shown without the carriage returns at its end, and as many of its characters stand
before the place as the column says, which counts from one. -/
def Shows (error : ParseError) (source : List Char) (start : ℕ) : Prop :=
  ∃ earlier ahead behind later, source.splitOn '\n' = earlier ++ (ahead ++ behind) :: later ∧
    earlier.length + 1 = error.line ∧ ahead.length + 1 = error.column ∧
    start = byteLength (['\n'].intercalate (earlier ++ [ahead])) ∧
    ∃ returns, ahead ++ behind = error.lineText.toList ++ returns ∧ (∀ c ∈ returns, c = '\r') ∧
      error.lineText.toList.getLast? ≠ some '\r'

/-- The lines of the report of an error in a file. -/
def reportLines (error : ParseError) (path : String) : List String :=
  ["error: parse error at " ++ error.line.repr ++ ":" ++ error.column.repr ++ ": " ++
      error.message,
    "  at " ++ path ++ ":" ++ error.line.repr ++ ":" ++ error.column.repr,
    "  | " ++ error.lineText]

end ParseError

/-- The error of a refusal at a token shows the line of the token. -/
theorem Refusal.shows {reason : Refusal} {token : Token} {source before text after : List Char}
    (hsource : before ++ (text ++ after) = source)
    (hspan : token.span = (Text.Cursor.origin.advance before).spanOf text) :
    ParseError.Shows ⟨reason.message, token.span.line, token.span.column,
      String.ofList (Text.lineAround before (text ++ after))⟩ source token.span.start := by
  obtain ⟨earlier, later, hlines, hlength, hbefore⟩ :=
    Text.exists_splitOn_append before (text ++ after)
  obtain ⟨returns, hreturns, hall, hlast⟩ :=
    Text.exists_eq_trimReturns_append (lastLine before ++ firstLine (text ++ after))
  refine ⟨earlier, lastLine before, firstLine (text ++ after), later, hsource ▸ hlines, ?_, ?_, ?_,
    returns, ?_, hall, ?_⟩
  · rw [hspan]
    change _ = (Text.Cursor.origin.advance before).line
    rw [Text.Cursor.line_advance, hlength, Nat.add_comm]
    rfl
  · rw [hspan]
    change _ = (Text.Cursor.origin.advance before).column
    rw [Text.Cursor.column_advance_origin, Nat.add_comm]
  · rw [hbefore, hspan]
    simp [Text.Cursor.spanOf, Text.Cursor.origin]
  · rw [String.toList_ofList]
    exact hreturns
  · rw [String.toList_ofList]
    exact hlast

/-- What is visible on a line is not left out at its end. -/
theorem Text.mem_trimReturns {cs : List Char} {c : Char} (h : c ∈ cs) (hc : isBlank c = false) :
    c ∈ trimReturns cs := by
  obtain ⟨returns, hreturns, hall, -⟩ := exists_eq_trimReturns_append cs
  rw [hreturns] at h
  rcases List.mem_append.1 h with h | h
  · exact h
  · rw [hall c h] at hc
    contradiction

/-- The failure of a refusal at a token that is shown is an error, with the line of the token. -/
theorem Refusal.exists_toFailure_eq {source : String} {token : Token}
    (h : token.IsShown source.toList) (reason : Refusal) : ∃ error : ParseError,
      reason.toFailure token.span source = .rejected error ∧ error.message = reason.message ∧
      (token.span.line = error.line ∧ token.span.column = error.column) ∧
      error.Shows source.toList token.span.start ∧
      (∃ c ∈ error.lineText.toList, isBlank c = false) ∧ '\n' ∉ error.lineText.toList := by
  obtain ⟨before, text, after, hsource, hspan, c, hmem, hc⟩ := h
  refine ⟨_, ?_, rfl, ⟨rfl, rfl⟩, shows hsource hspan, ⟨c, ?_, hc⟩, ?_⟩
  · rw [toFailure, Token.lineText?_eq hsource hspan]
  · rw [String.toList_ofList]
    exact Text.mem_trimReturns hmem hc
  · rw [String.toList_ofList]
    exact Text.newline_notMem_lineAround before (text ++ after)

/-! ### Reports -/

theorem Text.newline_notMem_repr (n : ℕ) : '\n' ∉ n.repr.toList := by
  intro hmem
  rw [Nat.repr, String.toList_ofList] at hmem
  have hdigit := Nat.isDigit_of_mem_toDigits (by decide) (by decide) hmem
  contradiction

namespace Problem

theorem detailLine_eq {lead text : String} (h : text ≠ "") :
    detailLine lead text = "\n  " ++ lead ++ text :=
  if_neg (by simpa using h)

/-- The parts of a report as lines. -/
theorem intercalate_lines (line column message path text : String) :
    "error: " ++ ("parse error at " ++ line ++ ":" ++ column ++ ": " ++ message) ++
        ("\n  " ++ "" ++ ("at " ++ path ++ ":" ++ line ++ ":" ++ column)) ++
        ("\n  " ++ "| " ++ text) =
      "\n".intercalate ["error: parse error at " ++ line ++ ":" ++ column ++ ": " ++ message,
        "  at " ++ path ++ ":" ++ line ++ ":" ++ column, "  | " ++ text] := by
  rw [← String.toList_inj]
  simp

/-- A report is its lines, with line feeds between them. -/
theorem report_ofParseError {error : ParseError} (path : String) (hne : error.lineText ≠ "") :
    (ofParseError path error).report = "\n".intercalate (error.reportLines path) := by
  have hplace (line column : String) : "at " ++ path ++ ":" ++ line ++ ":" ++ column ≠ "" := by
    intro hempty
    simp only [String.append_eq_empty_iff] at hempty
    exact absurd hempty.1.1.1.1.1 (by decide)
  have hreport : (ofParseError path error).report = "error: " ++ error.display ++
      detailLine "" ("at " ++ path ++ ":" ++ error.line.repr ++ ":" ++ error.column.repr) ++
        detailLine "| " error.lineText := rfl
  rw [hreport, detailLine_eq (hplace _ _), detailLine_eq hne]
  exact intercalate_lines _ _ _ _ _

/-- The report of an error has three lines. -/
theorem splitOn_report {error : ParseError} {path : String}
    (hmessage : '\n' ∉ error.message.toList) (hpath : '\n' ∉ path.toList)
    (hline : '\n' ∉ error.lineText.toList) (hne : error.lineText ≠ "") :
    (ofParseError path error).report.toList.splitOn '\n' =
      (error.reportLines path).map String.toList := by
  rw [report_ofParseError path hne, String.toList_intercalate]
  refine List.splitOn_intercalate '\n' ?_ (List.cons_ne_nil _ _)
  -- a line feed in none of the three
  have hcolon : '\n' ∉ ":".toList := by decide
  have hposition {lead : String} (hlead : '\n' ∉ lead.toList) :
      '\n' ∉ (lead ++ error.line.repr ++ ":" ++ error.column.repr).toList :=
    newline_notMem_append (newline_notMem_append
      (newline_notMem_append hlead (Text.newline_notMem_repr _)) hcolon)
      (Text.newline_notMem_repr _)
  rw [List.forall_mem_map, ParseError.reportLines]
  simp only [List.forall_mem_cons]
  refine ⟨?_, ?_, ?_, by simp⟩
  · exact newline_notMem_append (newline_notMem_append (hposition (by decide)) (by decide))
      hmessage
  · exact hposition (newline_notMem_append (newline_notMem_append (by decide) hpath) hcolon)
  · exact newline_notMem_append (by decide) hline

end Problem

/-! ### Errors and their reports -/

/-- A command on a text without a tree reports its error. -/
theorem Command.plan_of_rejected {source : String} {error : ParseError}
    (h : Tree.ofSource source = .error (.rejected error)) (command : Command) :
    command.plan (.ok source) = .error (.problem (.ofParseError command.file error)) := by
  change command.output source = _
  rw [output, h]
  rfl

/-- **Where an error is, and its report.**  An error gives the position of one token, and shows the
line that the token is on, which has something visible on it.  Its message holds no line feed, so
the report of any command on the text has three lines. -/
theorem Tree.report_of_error {source : String} {failure : Failure}
    (h : ofSource source = .error failure) : ∃ error, failure = .rejected error ∧
      (∃ before token after, Token.significant source = before ++ token :: after ∧
        (token.span.line = error.line ∧ token.span.column = error.column) ∧
        (∀ other ∈ before ++ after,
          ¬(other.span.line = error.line ∧ other.span.column = error.column)) ∧
        error.Shows source.toList token.span.start) ∧
      (∃ c ∈ error.lineText.toList, isBlank c = false) ∧ '\n' ∉ error.message.toList ∧
      ∀ command : Command, '\n' ∉ command.file.toList →
        command.plan (.ok source) = .error (.problem (.ofParseError command.file error)) ∧
        (Problem.ofParseError command.file error).report.toList.splitOn '\n' =
          (error.reportLines command.file).map String.toList := by
  obtain ⟨reason, before, token, after, hsignificant, rfl, hmessage, hshown⟩ :=
    exists_refused_of_error h
  obtain ⟨error, hfailure, hreason, hplace, hshows, hvisible, hline⟩ :=
    Refusal.exists_toFailure_eq hshown reason
  rw [hfailure] at h
  rw [← hreason] at hmessage
  refine ⟨error, hfailure, ⟨before, token, after, hsignificant, hplace, ?_, hshows⟩, hvisible,
    hmessage, ?_⟩
  · rintro other hother ⟨hline, hcolumn⟩
    refine Token.position_ne_of_significant_eq hsignificant other hother ?_
    rw [Span.position, Span.position, hline, hcolumn, hplace.1, hplace.2]
  · intro command hfile
    refine ⟨Command.plan_of_rejected h command, Problem.splitOn_report hmessage hfile hline ?_⟩
    intro hempty
    obtain ⟨c, hmem, -⟩ := hvisible
    rw [hempty] at hmem
    contradiction

set_option maxRecDepth 4000 in
/-- On a line that ends in a carriage return, the report leaves this out. -/
theorem Tree.report_of_carriageReturn :
    ofSource "b: c\na: \"ж\" )\r\n" =
        .error (.rejected ⟨"expected end of line, found ')'", 2, 8, "a: \"ж\" )"⟩) ∧
      (Problem.ofParseError "names.txt"
          ⟨"expected end of line, found ')'", 2, 8, "a: \"ж\" )"⟩).report.toList.splitOn '\n' =
        ["error: parse error at 2:8: expected end of line, found ')'", "  at names.txt:2:8",
          "  | a: \"ж\" )"].map String.toList := by
  have hgrammar : Parse.grammar (byteLength "b: c\na: \"ж\" )\r\n".toList)
      (TokenStream.ofSource "b: c\na: \"ж\" )\r\n") =
        .refused (.unexpected .endOfLine (.punctuation .rightParen))
          ⟨⟨.punctuation .rightParen, ⟨13, 14, 2, 8⟩⟩,
            [⟨.newline, ⟨15, 16, 2, 10⟩⟩, ⟨.endOfInput, ⟨16, 16, 3, 1⟩⟩]⟩ := by cbv
  have hline : (Span.mk 13 14 2 8).lineText? "b: c\na: \"ж\" )\r\n" = some "a: \"ж\" )" := by cbv
  have herror : ofSource "b: c\na: \"ж\" )\r\n" =
      .error (.rejected ⟨"expected end of line, found ')'", 2, 8, "a: \"ж\" )"⟩) := by
    rw [ofSource_eq, ofTokens, hgrammar]
    change Except.error (Refusal.toFailure _ (Span.mk 13 14 2 8) _) = _
    rw [Refusal.toFailure, hline]
    rfl
  obtain ⟨error, hfailure, -, -, -, hreport⟩ := report_of_error herror
  obtain rfl := Failure.rejected.inj hfailure
  exact ⟨herror, (hreport (.tree "names.txt" ⟨2, false⟩) (by decide)).2⟩

end GrammarCatalog
