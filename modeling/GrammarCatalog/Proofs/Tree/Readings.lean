/-
**Reading a text again and again.**

A reading stops at the end of the text or at the token that it refuses, and the next one goes on
from there.  Wherever the reader has stopped, however many groups were open there, it counts none of
them any more, so what the next reading gives depends on the tokens that are left alone: it accepts
them if they are a sentence, with groups nested as deeply as ever.

There are three kinds of places to stop at.  At the end of the text nothing is left to read, and
every later reading gives the empty grammar.  A token that begins a line is taken, for there are
sentences that begin with it.  Any other token is refused on the spot, now and forever.  So each
reading takes a token or is the last one that can give anything new.

Main definitions:

* `GrammarCatalog.TokenKind.beginsLine` — the kinds at which reading is taken up again;
* `GrammarCatalog.Tree.standing`, `GrammarCatalog.Tree.reading` — the reader that a reading begins
  with, and what it gives.

Main results:

* `GrammarCatalog.MetaGrammar.viable_of_beginsLine` — sentences begin with any token that begins a
  line;
* `GrammarCatalog.Parse.length_rest_lt_of_beginsLine` — such a token is taken;
* `GrammarCatalog.Tree.successive_eq` — repeated readings, one by one;
* `GrammarCatalog.Tree.readings_go_on` — **what repeated readings give**.
-/

import GrammarCatalog.Proofs.Declaration.NoFault
import GrammarCatalog.Proofs.Token.Faithful
import GrammarCatalog.Proofs.Tree.FirstRefused

set_option relaxedAutoImplicit false
set_option autoImplicit false

namespace GrammarCatalog

/-! ### The beginnings of lines -/

namespace TokenKind

/-- A kind that begins a statement, or a line without one. -/
def beginsLine : TokenKind → Bool
  | rule _ | terminal _ | directive _ | newline => true
  | _ => false

/-- A directive has the name of one that there is. -/
def IsKnown (kind : TokenKind) : Prop :=
  ∀ name, kind = .directive name → ∃ which : Directive, name = which.name

end TokenKind

theorem Token.isKnown_of_mem (source : String) :
    ∀ token ∈ ofSource source, token.kind.IsKnown := by
  refine @Scan.forall_mem_tokens (fun _ => True) _ ?_ _ trivial
  intro scan token after _ hstep
  refine ⟨fun name hname => ?_, trivial⟩
  cases hstep with
  | finish _ _ | newline _ _ _ _ _ _ _ => contradiction
  | @lexeme _ c cs _ _ _ _ =>
      have hread : (Lexeme.scan scan.opening c cs).kind.ReadFrom _ _ :=
        Lexeme.isRead_scan scan.opening c cs
      change (Lexeme.scan scan.opening c cs).kind = _ at hname
      rw [hname] at hread
      exact hread.2.2

namespace MetaGrammar

open scoped Computability

/-- A token is viable if something can follow it on its line. -/
theorem viable_of_token {suits : TokenKind → Bool} {behind : Language TokenKind} {kind : TokenKind}
    (hkind : suits kind = true) (hbehind : HasWord behind)
    (h : token suits * behind ≤ lines Parse.maxNesting) : Viable [kind] := by
  obtain ⟨word, hword⟩ := hbehind
  refine ⟨word ++ [.endOfInput], ?_⟩
  rw [← List.append_assoc]
  refine Language.append_mem_mul (h ?_) ⟨.endOfInput, rfl, rfl⟩
  exact Language.append_mem_mul ⟨kind, hkind, rfl⟩ hword

/-- What may stand behind a directive. -/
theorem hasWord_behind (which : Directive) : HasWord (behind Parse.maxNesting which) := by
  cases which with
  | ignore => exact hasWord_expansions _ false
  | importing => simp [behind, imported, path]
  | declare => simp [behind]
  | override | extend => exact hasWord_definition _

/-- Sentences begin with any token that begins a line. -/
theorem viable_of_beginsLine {kind : TokenKind} (h : kind.beginsLine = true)
    (hknown : kind.IsKnown) : Viable [kind] := by
  have hdefinition : definition Parse.maxNesting ≤ lines Parse.maxNesting :=
    (definition_le_statement _).trans (statement_le_lines _)
  cases kind with
  | rule name =>
      have hrule : token TokenKind.isRule *
          (params * (priority * (sign .colon * expansions Parse.maxNesting true))) =
            rule Parse.maxNesting := by
        simp only [rule, mul_assoc]
      have hkind : TokenKind.isRule (.rule name) = true := rfl
      refine viable_of_token hkind ?_ (hrule.trans_le (left_le_add.trans hdefinition))
      simp [params, priority, hasWord_expansions]
  | terminal name =>
      have hterm : token TokenKind.isTerminal *
          (priority * (sign .colon * expansions Parse.maxNesting false)) =
            term Parse.maxNesting := by
        simp only [term, mul_assoc]
      have hkind : TokenKind.isTerminal (.terminal name) = true := rfl
      refine viable_of_token hkind ?_ (hterm.trans_le (right_le_add.trans hdefinition))
      simp [priority, hasWord_expansions]
  | directive name =>
      obtain ⟨which, rfl⟩ := hknown name rfl
      have hkind : TokenKind.isDirective which (.directive which.name) = true :=
        beq_self_eq_true _
      exact viable_of_token hkind (hasWord_behind which)
        ((directive_mul_behind_le _ which).trans (statement_le_lines _))
  | newline =>
      have hnewline : newline * lines Parse.maxNesting ≤ lines Parse.maxNesting :=
        (mul_le_mul' le_kstar le_rfl).trans (newlines_mul_lines_le _)
      have hlines : HasWord (lines Parse.maxNesting) := ⟨[], one_le_lines _ Language.nil_mem_one⟩
      exact @viable_of_token (· == .newline) _ _ rfl hlines hnewline
  | _ => contradiction

end MetaGrammar

/-! ### One reading -/

namespace Parse

variable {length : ℕ} {s r : TokenStream}

/-- At the end of the text nothing is left to read. -/
theorem grammar_of_end (h : s.current.kind = .endOfInput) :
    grammar length s = .accepted (.node .start [] ⟨0, length, 1, 1⟩) s := by
  have hblank := blankLines_of_stop (s := s) (by simp [h])
  have hstop : many (· != .endOfInput) terminatedStatement s = .accepted [] s :=
    many_of_stop (by simp [h])
  simp [grammar, hblank, hstop]

/-- A token that begins no line is refused as soon as it comes first. -/
theorem exists_refused_of_stuck (h : s.current.kind.beginsLine = false)
    (hend : s.current.kind ≠ .endOfInput) : ∃ reason, grammar length s = .refused reason s := by
  have hstatement : ∃ reason, statement s = .refused reason s := by
    unfold statement
    rw [kind_bind_apply]
    cases hkind : s.current.kind with
    | rule _ | terminal _ | directive _ | newline => simp [hkind, TokenKind.beginsLine] at h
    | _ => simp [definition, unexpected, hkind]
  obtain ⟨reason, hstatement⟩ := hstatement
  have hblank : blankLines s = .accepted () s := by
    refine blankLines_of_stop ?_
    intro hkind
    simp [hkind, TokenKind.beginsLine] at h
  have hrefused : terminatedStatement s = .refused reason s := by
    rw [terminatedStatement, bind_apply, hstatement, andThen_refused]
  refine ⟨reason, ?_⟩
  rw [grammar, bind_apply, hblank, andThen_accepted, bind_apply, many, TokenStream.toList,
    manyWithin, kind_bind_apply, if_pos (by simpa using hend), bind_apply,
    hrefused]
  rfl

/-- What is accepted is a sentence. -/
theorem mem_sentence_of_accepted {tree : Tree} (hs : s.Terminated)
    (h : grammar length s = .accepted tree r) :
    r.current.kind = .endOfInput ∧ s.toList.map Token.kind ∈ MetaGrammar.sentence := by
  obtain ⟨trees, -, hderives, hr⟩ := sound_grammar hs h
  obtain ⟨taken, rfl, hword⟩ := hderives.spells
  -- behind the lines stands the end of the text, and nothing behind that
  have hahead : r.ahead = [] := (hs.of_suffix hderives.suffix).current_iff.1 hr
  refine ⟨hr, ?_⟩
  rw [TokenStream.toList_prepend, List.map_append]
  refine Language.append_mem_mul hword ⟨r.current.kind, by simp [hr], ?_⟩
  simp [TokenStream.toList, hahead]

/-- A token that begins a line is taken, whatever comes of it. -/
theorem length_rest_lt_of_beginsLine (hs : s.Terminated) (h : s.current.kind.beginsLine = true)
    (hknown : s.current.kind.IsKnown) :
    (grammar length s).rest.ahead.length < s.ahead.length := by
  obtain ⟨before, hbefore⟩ := (stays_grammar length).exists_taken s
  cases before with
  | nil =>
      rw [TokenStream.prepend_nil] at hbefore
      cases houtcome : grammar length s with
      | accepted tree r =>
          rw [houtcome] at hbefore
          obtain rfl : s = r := hbefore
          have hend := (mem_sentence_of_accepted hs houtcome).1
          rw [hend] at h
          contradiction
      | refused reason r =>
          rw [houtcome] at hbefore
          obtain rfl : s = r := hbefore
          have hviable := MetaGrammar.viable_of_beginsLine h hknown
          have hnot : ¬MetaGrammar.Viable ([].map Token.kind ++ [s.current.kind]) :=
            not_viable_of_refused hs houtcome rfl
          exact absurd hviable hnot
  | cons t before =>
      have hahead (stream : TokenStream) : stream.toList.length = stream.ahead.length + 1 := rfl
      have hlength := congrArg (fun stream => stream.toList.length) hbefore
      rw [TokenStream.toList_prepend, List.length_append, List.length_cons, hahead,
        hahead] at hlength
      omega

end Parse

/-! ### Reading after reading -/

namespace Tree

/-- The reader that a reading of a text begins with: the first one stands at the beginning, and any
other is as the reading before has left it. -/
def standing (source : String) : ℕ → Reader
  | 0 => Reader.ofSource source
  | count + 1 => (ofTokens source (standing source count)).2

/-- What a reading of a text gives. -/
def reading (source : String) (count : ℕ) : Except Failure Tree :=
  (ofTokens source (standing source count)).1

variable {source : String} {count later : ℕ} {tree : Tree} {failure : Failure}

/-- Repeated readings are the readings one by one. -/
theorem successive_eq (source : String) (times : ℕ) :
    successive source times = (List.range times).map (reading source) := by
  have hfrom (count : ℕ) : successiveFrom source times (standing source count) =
      (List.range times).map fun further => reading source (count + further) := by
    induction times generalizing count with
    | zero => rfl
    | succ times ih =>
        rw [successiveFrom, List.range_succ_eq_map, List.map_cons, List.map_map]
        change _ :: successiveFrom source times (standing source (count + 1)) = _
        rw [ih (count + 1)]
        simp only [Function.comp_def, Nat.succ_eq_add_one, Nat.add_zero, Nat.add_comm 1,
          Nat.add_assoc]
        rfl
  have hstart := hfrom 0
  simp only [Nat.zero_add] at hstart
  exact hstart

/-- Every reading begins as the first one of its tokens would, with nothing open. -/
theorem standing_eq (source : String) (count : ℕ) :
    standing source count = Reader.ofStream (standing source count).stream := by
  induction count with
  | zero => rfl
  | succ count ih =>
      rw [standing, ih, ofTokens_ofStream]
      rfl

/-- A reading is one of the tokens that are left. -/
theorem reading_eq (source : String) (count : ℕ) :
    reading source count = (ofTokens source (standing source count).stream).1 := by
  rw [reading, standing_eq, ofTokens_ofStream]
  rfl

/-- The next reading begins where the parser has stopped. -/
theorem standing_succ (source : String) (count : ℕ) : standing source (count + 1) =
    Reader.ofStream
      (Parse.grammar (Text.byteLength source.toList) (standing source count).stream).rest := by
  have hrest (stream : TokenStream) : (ofTokens source stream).2 =
      (Parse.grammar (Text.byteLength source.toList) stream).rest := by
    rw [ofTokens]
    cases Parse.grammar (Text.byteLength source.toList) stream <;> rfl
  have hstanding : standing source (count + 1) =
      (ofTokens source (Reader.ofStream (standing source count).stream)).2 := by
    rw [standing, ← standing_eq]
  rw [hstanding, ofTokens_ofStream, hrest]

/-- Every reading begins at a token of the text. -/
theorem standing_suffix (source : String) (count : ℕ) :
    (standing source count).stream.toList <:+ Token.significant source := by
  induction count with
  | zero => exact (TokenStream.toList_ofSource source).symm ▸ List.suffix_refl _
  | succ count ih =>
      rw [standing_succ]
      exact (Parse.stays_grammar _ (standing source count).stream).trans ih

theorem terminated_standing (source : String) (count : ℕ) :
    (standing source count).stream.Terminated := by
  refine (TokenStream.terminated_ofSource source).of_suffix ?_
  rw [TokenStream.toList_ofSource]
  exact standing_suffix source count

theorem current_standing_mem (source : String) (count : ℕ) :
    (standing source count).stream.current ∈ Token.significant source :=
  (standing_suffix source count).subset List.mem_cons_self

/-- A reading that gives a tree has read a sentence, up to the end of the text. -/
theorem mem_sentence_of_reading (h : reading source count = .ok tree) :
    (standing source (count + 1)).stream.current.kind = .endOfInput ∧
      (standing source count).stream.toList.map Token.kind ∈ MetaGrammar.sentence := by
  rw [standing_succ]
  rw [reading_eq, ofTokens] at h
  cases houtcome : Parse.grammar (Text.byteLength source.toList) (standing source count).stream with
  | accepted tree r =>
      exact Parse.mem_sentence_of_accepted (terminated_standing source count) houtcome
  | refused reason r =>
      rw [houtcome] at h
      contradiction

/-- A reading gives a tree of just the sentences. -/
theorem exists_reading_iff_mem_sentence (source : String) (count : ℕ) :
    (∃ tree, reading source count = .ok tree) ↔
      (standing source count).stream.toList.map Token.kind ∈ MetaGrammar.sentence := by
  constructor
  · rintro ⟨tree, h⟩
    exact (mem_sentence_of_reading h).2
  · intro h
    obtain ⟨-, tree, r, haccepted⟩ :=
      Parse.exists_accepted_of_mem_sentence (Text.byteLength source.toList) h
    refine ⟨tree, ?_⟩
    rw [reading_eq, ofTokens, haccepted]

/-- A refusal at a token of the text is an error at its position. -/
theorem exists_rejected_of_mem {token : Token} (h : token ∈ Token.significant source)
    (reason : Refusal) : ∃ error : ParseError,
      reason.toFailure token.span source = .rejected error ∧
        token.span.line = error.line ∧ token.span.column = error.column := by
  obtain ⟨lineText, -, hfailure⟩ := reason.toFailure_of_mem h
  exact ⟨_, hfailure, rfl, rfl⟩

/-- A reading without a tree gives the position of the token that the next one begins at. -/
theorem exists_rejected_of_reading (h : reading source count = .error failure) :
    ∃ error : ParseError, failure = .rejected error ∧
      (standing source (count + 1)).stream.current.span.line = error.line ∧
      (standing source (count + 1)).stream.current.span.column = error.column := by
  have hmem := current_standing_mem source (count + 1)
  rw [standing_succ] at hmem ⊢
  rw [reading_eq, ofTokens] at h
  cases houtcome : Parse.grammar (Text.byteLength source.toList) (standing source count).stream with
  | accepted tree r =>
      rw [houtcome] at h
      contradiction
  | refused reason r =>
      rw [houtcome] at h hmem
      obtain ⟨error, herror, hposition⟩ := exists_rejected_of_mem hmem reason
      refine ⟨error, ?_, hposition⟩
      exact (Except.error.inj h).symm.trans herror

/-! ### Places to stop at -/

/-- Where a reading takes nothing, every later one stands too. -/
theorem standing_of_fixed (h : standing source (count + 1) = standing source count)
    (hlater : count ≤ later) : standing source later = standing source count := by
  induction later, hlater using Nat.le_induction with
  | base => rfl
  | succ later _ ih => rw [standing, ih, ← standing, h]

/-- From the end of the text on, nothing is left to read. -/
theorem reading_of_end (h : (standing source count).stream.current.kind = .endOfInput)
    (hlater : count ≤ later) :
    reading source later = .ok (.node .start [] ⟨0, Text.byteLength source.toList, 1, 1⟩) := by
  have hgrammar := @Parse.grammar_of_end (Text.byteLength source.toList) _ h
  have hfixed : standing source (count + 1) = standing source count := by
    rw [standing_succ, hgrammar, standing_eq source count]
    rfl
  rw [reading_eq, standing_of_fixed hfixed hlater, ofTokens, hgrammar]

/-- At a token that begins no line reading stands still, and gives one error. -/
theorem reading_of_stuck (h : (standing source count).stream.current.kind.beginsLine = false)
    (hend : (standing source count).stream.current.kind ≠ .endOfInput) :
    ∃ error : ParseError,
      ((standing source count).stream.current.span.line = error.line ∧
        (standing source count).stream.current.span.column = error.column) ∧
      ∀ later, count ≤ later → standing source later = standing source count ∧
        reading source later = .error (.rejected error) := by
  obtain ⟨reason, hgrammar⟩ :=
    @Parse.exists_refused_of_stuck (Text.byteLength source.toList) _ h hend
  obtain ⟨error, herror, hposition⟩ :=
    exists_rejected_of_mem (current_standing_mem source count) reason
  refine ⟨error, hposition, ?_⟩
  intro later hlater
  have hfixed : standing source (count + 1) = standing source count := by
    rw [standing_succ, hgrammar, standing_eq source count]
    rfl
  have hstands := standing_of_fixed hfixed hlater
  refine ⟨hstands, ?_⟩
  rw [reading_eq, hstands, ofTokens, hgrammar]
  exact congrArg Except.error herror

/-- At a token that begins a line, a reading takes this token. -/
theorem length_standing_lt (h : (standing source count).stream.current.kind.beginsLine = true) :
    (standing source (count + 1)).stream.ahead.length <
      (standing source count).stream.ahead.length := by
  rw [standing_succ]
  refine Parse.length_rest_lt_of_beginsLine (terminated_standing source count) h ?_
  exact Token.isKnown_of_mem source _ (List.mem_filter.1 (current_standing_mem source count)).1

/-! ### All readings -/

/-- From a reading on, all give the same. -/
def SettlesAt (source : String) (count : ℕ) : Prop :=
  ∀ later, count ≤ later → reading source later = reading source count

theorem settlesAt_of_end (h : (standing source count).stream.current.kind = .endOfInput) :
    SettlesAt source count := by
  intro later hlater
  rw [reading_of_end h hlater, reading_of_end h le_rfl]

theorem SettlesAt.succ (h : SettlesAt source count) : SettlesAt source (count + 1) := by
  intro later hlater
  rw [h later (by omega), h (count + 1) (by omega)]

/-- A reading takes a token, or nothing new comes any more. -/
theorem settlesAt_or_length_lt (source : String) (count : ℕ) : SettlesAt source count ∨
    (standing source (count + 1)).stream.ahead.length <
      (standing source count).stream.ahead.length := by
  cases hline : (standing source count).stream.current.kind.beginsLine with
  | true => exact Or.inr (length_standing_lt hline)
  | false =>
      left
      by_cases hend : (standing source count).stream.current.kind = .endOfInput
      · exact settlesAt_of_end hend
      · obtain ⟨error, -, hstuck⟩ := reading_of_stuck hline hend
        intro later hlater
        rw [(hstuck later hlater).2, (hstuck count le_rfl).2]

/-- As long as readings give something new, each has taken a token. -/
theorem settlesAt_or_length_le (source : String) (count : ℕ) : SettlesAt source count ∨
    (standing source count).stream.ahead.length + count + 1 ≤
      (Token.significant source).length := by
  induction count with
  | zero =>
      right
      rw [← TokenStream.toList_ofSource]
      exact le_rfl
  | succ count ih =>
      rcases ih with ih | ih
      · exact Or.inl ih.succ
      rcases settlesAt_or_length_lt source count with hsettles | hlength
      · exact Or.inl hsettles.succ
      · right
        omega

/-- After as many readings as there are tokens before the end of the text, nothing new comes. -/
theorem settlesAt_length (source : String) :
    SettlesAt source ((Token.significant source).length - 1) := by
  rcases settlesAt_or_length_le source ((Token.significant source).length - 1) with h | h
  · exact h
  · refine settlesAt_of_end ((terminated_standing source _).current_iff.2 ?_)
    rw [← List.length_eq_zero_iff]
    omega

/-- **What repeated readings give.**  Each reading begins where the one before has stopped, with
nothing open whatever came of that one, as the first reading of the tokens that are left would.  It
gives a tree of just the sentences.  After a tree, or an error at the end of the text, all that
follow give the empty grammar.  After an error at a token that begins a line, the next reading takes
this token.  After an error at any other token, nothing is taken any more, and all that follow give
one error at this token.  So after as many readings as there are tokens before the end of the text,
all readings give the same. -/
theorem readings_go_on (source : String) :
    (∀ times, successive source times = (List.range times).map (reading source)) ∧
    (∀ count, (standing source count).depth = 0 ∧
      standing source count = Reader.ofStream (standing source count).stream) ∧
    (∀ count, (standing source count).stream.toList <:+ Token.significant source ∧
      ((∃ tree, reading source count = .ok tree) ↔
        (standing source count).stream.toList.map Token.kind ∈ MetaGrammar.sentence)) ∧
    (∀ count tree, reading source count = .ok tree → ∀ later, count < later →
      reading source later = .ok (.node .start [] ⟨0, Text.byteLength source.toList, 1, 1⟩)) ∧
    (∀ count failure, reading source count = .error failure →
      let next := (standing source (count + 1)).stream
      (∃ error : ParseError, failure = .rejected error ∧
        next.current.span.line = error.line ∧ next.current.span.column = error.column) ∧
      (next.current.kind = .endOfInput → ∀ later, count < later → reading source later =
        .ok (.node .start [] ⟨0, Text.byteLength source.toList, 1, 1⟩)) ∧
      (next.current.kind.beginsLine = true →
        (standing source (count + 2)).stream.ahead.length < next.ahead.length) ∧
      (next.current.kind.beginsLine = false → next.current.kind ≠ .endOfInput →
        ∃ error : ParseError,
          (next.current.span.line = error.line ∧ next.current.span.column = error.column) ∧
          ∀ later, count < later → standing source later = standing source (count + 1) ∧
            reading source later = .error (.rejected error))) ∧
    ∀ count, (Token.significant source).length ≤ count + 1 →
      reading source count = reading source ((Token.significant source).length - 1) := by
  refine ⟨successive_eq source, ?_, ?_, ?_, ?_, ?_⟩
  · intro count
    exact ⟨congrArg Reader.depth (standing_eq source count), standing_eq source count⟩
  · intro count
    exact ⟨standing_suffix source count, exists_reading_iff_mem_sentence source count⟩
  · intro count tree h later hlater
    exact reading_of_end (mem_sentence_of_reading h).1 hlater
  · intro count failure h
    exact ⟨exists_rejected_of_reading h, fun hend later => reading_of_end hend,
      length_standing_lt, reading_of_stuck⟩
  · intro count hcount
    exact settlesAt_length source count (by omega)

end Tree

end GrammarCatalog
