/-
**The count of what is open.**

A reader counts the groups and argument lists that are open, and the count is what keeps it from
going too deep.  A parser of streams has no count, only the levels that its recursion goes down.
Both do the same: where a reader has some levels left before the count is too high, it accepts and
refuses what the parser of those levels does on its tokens, and whichever comes of it, at whatever
depth, the count is afterwards what it was before.  More levels than the count has left change
nothing.

So a reading of a text leaves its reader with nothing open, and is a reading of its tokens alone.

Main definitions:

* `GrammarCatalog.Parse.Keeps` — a parser of readers does what one of streams does, and keeps the
  count.

Main results:

* `GrammarCatalog.Parse.keeps_nested` — one level deeper and back, or no deeper;
* `GrammarCatalog.Parse.keeps_expansions` — the levels are what the count has left;
* `GrammarCatalog.Tree.ofTokens_ofStream` — **a reading keeps nothing open**;
* `GrammarCatalog.Tree.ofSource_eq` — the tree of a text is the one of its tokens.
-/

import GrammarCatalog.Tree.OfSource

set_option relaxedAutoImplicit false
set_option autoImplicit false

namespace GrammarCatalog

namespace Parse

variable {α β : Type}

/-- The outcome of a reader that has the given number of groups and argument lists open. -/
def Outcome.atDepth (depth : Nat) : Outcome TokenStream α → Outcome Reader α
  | .accepted value rest => .accepted value ⟨rest, depth⟩
  | .refused reason rest => .refused reason ⟨rest, depth⟩

/-- A reader at the given depth does what a stream of its tokens does, and ends at this depth. -/
def Keeps (depth : Nat) (parser : Parse Reader α) (parser' : Parse TokenStream α) : Prop :=
  ∀ stream, parser ⟨stream, depth⟩ = (parser' stream).atDepth depth

variable {depth levels : Nat} {parser : Parse Reader α} {parser' : Parse TokenStream α}

/-! ### Tokens and sequences -/

theorem keeps_pure (value : α) : Keeps depth (pure value) (pure value) := fun _ => rfl

theorem keeps_current : Keeps depth current current := fun _ => rfl

theorem keeps_kind : Keeps depth kind kind := fun _ => rfl

theorem keeps_take : Keeps depth take take := fun _ => rfl

theorem keeps_refuse (reason : Refusal) : Keeps depth (refuse reason : Parse Reader α)
    (refuse reason) := fun _ => rfl

theorem keeps_unexpected (expected : Expectation) :
    Keeps depth (unexpected expected : Parse Reader α) (unexpected expected) := by
  intro stream
  simp only [unexpected, TokenSource.stream_reader, TokenSource.stream_eq]
  cases stream.current.kind <;> rfl

/-- Sequences keep the count if their parts do. -/
theorem Keeps.bind {next : α → Parse Reader β} {next' : α → Parse TokenStream β}
    (h : Keeps depth parser parser') (hnext : ∀ value, Keeps depth (next value) (next' value)) :
    Keeps depth (parser >>= next) (parser' >>= next') := by
  intro stream
  rw [bind_apply, bind_apply, h stream]
  cases parser' stream with
  | accepted value rest => exact hnext value rest
  | refused reason rest => rfl

/-- What is made of a value changes nothing. -/
theorem Keeps.map (h : Keeps depth parser parser') (make : α → β) :
    Keeps depth (parser >>= fun value => pure (make value))
      (parser' >>= fun value => pure (make value)) :=
  h.bind fun value => keeps_pure (make value)

theorem Keeps.ite {condition : Prop} [Decidable condition] {other : Parse Reader α}
    {other' : Parse TokenStream α} (h : Keeps depth parser parser')
    (hother : Keeps depth other other') :
    Keeps depth (if condition then parser else other) (if condition then parser' else other') := by
  split
  · exact h
  · exact hother

theorem keeps_expect (expected : Expectation) (suits : TokenKind → Bool) :
    Keeps depth (expect expected suits) (expect expected suits) :=
  keeps_kind.bind fun _ => keeps_take.ite (keeps_unexpected expected)

theorem keeps_sign (which : Punctuation) : Keeps depth (sign which) (sign which) :=
  keeps_expect _ _

theorem keeps_ruleName : Keeps depth ruleName ruleName := keeps_expect _ _

theorem keeps_name : Keeps depth name name := keeps_expect _ _

theorem keeps_number : Keeps depth number number := keeps_expect _ _

theorem keeps_refuseMalformed : Keeps depth refuseMalformed refuseMalformed := by
  refine keeps_kind.bind fun kind => ?_
  split
  · exact keeps_refuse _
  · exact keeps_pure ()

/-! ### Levels -/

/-- One level deeper, and back. -/
theorem keeps_nested (hdepth : depth < maxNesting) (h : Keeps (depth + 1) parser parser') :
    Keeps depth (nested parser) parser' := by
  intro stream
  have henter : TokenSource.enter? (⟨stream, depth⟩ : Reader) = some ⟨stream, depth + 1⟩ :=
    if_neg (Nat.not_le.2 hdepth)
  rw [nested, henter]
  change (parser ⟨stream, depth + 1⟩).leave = _
  rw [h stream]
  cases parser' stream <;> rfl

/-- At the deepest level the count allows no other. -/
theorem keeps_nested_of_le (hdepth : maxNesting ≤ depth) :
    Keeps depth (nested parser) (tooDeep : Parse TokenStream α) := by
  intro stream
  have henter : TokenSource.enter? (⟨stream, depth⟩ : Reader) = none := if_pos hdepth
  rw [nested, henter]
  rfl

/-! ### Repetitions -/

theorem keeps_manyWithin {goesOn : TokenKind → Bool} (h : Keeps depth parser parser')
    (bound : List Token) :
    Keeps depth (manyWithin goesOn parser bound) (manyWithin goesOn parser' bound) := by
  induction bound with
  | nil => exact keeps_pure []
  | cons _ bound ih =>
      refine keeps_kind.bind fun _ => Keeps.ite ?_ (keeps_pure [])
      exact h.bind fun _ => ih.map _

theorem Keeps.many {goesOn : TokenKind → Bool} (h : Keeps depth parser parser') :
    Keeps depth (many goesOn parser) (many goesOn parser') :=
  fun stream => keeps_manyWithin h stream.toList stream

theorem Keeps.separated {separator : Punctuation} (h : Keeps depth parser parser') :
    Keeps depth (separated separator parser) (separated separator parser') := by
  refine h.bind fun _ => Keeps.map ?_ _
  exact Keeps.many (keeps_take.bind fun _ => h)

/-! ### Values and groups -/

theorem keeps_literalString : Keeps depth literalString literalString := by
  refine keeps_take.bind fun _ => keeps_kind.bind fun _ => Keeps.ite ?_ (keeps_pure _)
  refine keeps_take.bind fun _ => keeps_kind.bind fun kind => ?_
  split
  · exact keeps_take.map _
  · exact keeps_refuse _

section Child

variable {parser : Parse Reader Child} {parser' : Parse TokenStream Child}

theorem keeps_ruleReference (h : Keeps depth parser parser') :
    Keeps depth (ruleReference parser) (ruleReference parser') := by
  refine keeps_take.bind fun _ => keeps_kind.bind fun _ => Keeps.ite ?_ (keeps_pure _)
  refine keeps_take.bind fun _ => h.separated.bind fun _ => ?_
  exact (keeps_sign _).map _

theorem keeps_valueWith (h : Keeps depth parser parser') :
    Keeps depth (valueWith parser) (valueWith parser') := by
  refine keeps_kind.bind fun kind => ?_
  split
  · exact keeps_literalString
  · exact keeps_take.map _
  · exact keeps_take.map _
  · exact keeps_ruleReference h
  · exact keeps_unexpected _

theorem keeps_atomWith {group : Parse Reader Child} {group' : Parse TokenStream Child}
    (hgroup : Keeps depth group group') (h : Keeps depth parser parser') :
    Keeps depth (atomWith group parser) (atomWith group' parser') := by
  refine keeps_kind.bind fun kind => ?_
  split
  · exact hgroup
  · exact hgroup
  · exact h

theorem keeps_repetition (operand : Child) :
    Keeps depth (repetition operand) (repetition operand) := by
  refine keeps_take.bind fun _ => keeps_number.bind fun _ => keeps_kind.bind fun _ => ?_
  refine Keeps.ite ?_ (keeps_pure _)
  exact keeps_take.bind fun _ => keeps_number.map _

theorem keeps_exprWith (h : Keeps depth parser parser') :
    Keeps depth (exprWith parser) (exprWith parser') := by
  refine h.bind fun operand => keeps_kind.bind fun kind => ?_
  split
  · exact keeps_take.map _
  · exact keeps_take.map _
  · exact keeps_take.map _
  · exact keeps_repetition operand
  · exact keeps_pure operand

theorem keeps_expansionWith (h : Keeps depth parser parser') :
    Keeps depth (expansionWith parser) (expansionWith parser') := by
  refine keeps_current.bind fun _ => h.many.bind fun _ => ?_
  exact keeps_refuseMalformed.map _

theorem keeps_alternativeWith (h : Keeps depth parser parser') (aliases : Bool) :
    Keeps depth (alternativeWith aliases parser) (alternativeWith aliases parser') := by
  refine (keeps_expansionWith h).bind fun _ => keeps_kind.bind fun _ => ?_
  refine Keeps.ite (Keeps.ite ?_ (keeps_refuse _)) (keeps_pure _)
  exact keeps_take.bind fun _ => keeps_ruleName.map _

theorem keeps_expansionsWith (h : Keeps depth parser parser') (aliases : Bool) :
    Keeps depth (expansionsWith aliases parser) (expansionsWith aliases parser') :=
  (keeps_alternativeWith h aliases).separated.map _

end Child

theorem keeps_groupWith {body : Parse Reader Tree} {body' : Parse TokenStream Tree}
    (h : Keeps depth body body') : Keeps depth (groupWith body) (groupWith body') := by
  refine keeps_take.bind fun _ => h.bind fun _ => Keeps.ite ?_ ?_
  · exact (keeps_sign _).map _
  · exact (keeps_sign _).map _

/-! ### The levels that the count has left -/

theorem maxNesting_sub (hdepth : depth < maxNesting) :
    maxNesting - depth = maxNesting - (depth + 1) + 1 := by omega

/-- The arguments of a reader are nested as deeply as the count allows. -/
theorem keeps_value (h : maxNesting ≤ levels + depth) :
    Keeps depth (value levels) (value (maxNesting - depth)) := by
  induction levels generalizing depth with
  | zero =>
      rw [Nat.sub_eq_zero_of_le (by omega), value_zero]
      exact keeps_valueWith (keeps_nested_of_le (by omega))
  | succ levels ih =>
      by_cases hdepth : depth < maxNesting
      · rw [maxNesting_sub hdepth, value_succ]
        exact keeps_valueWith (keeps_nested hdepth (ih (by omega)))
      · -- the levels that are left over are never reached
        rw [Nat.sub_eq_zero_of_le (by omega), value_zero]
        exact keeps_valueWith (keeps_nested_of_le (by omega))

/-- Alternatives keep the count if the groups in them do. -/
theorem keeps_expansions_of_group (h : maxNesting ≤ levels + depth)
    (hgroup : Keeps depth (group levels) (group (maxNesting - depth))) (aliases : Bool) :
    Keeps depth (expansions levels aliases) (expansions (maxNesting - depth) aliases) := by
  rw [expansions_eq, expansions_eq]
  exact keeps_expansionsWith (keeps_exprWith (keeps_atomWith hgroup (keeps_value h))) aliases

/-- So they do, and their groups are nested as deeply as the count allows. -/
theorem keeps_expansions (h : maxNesting ≤ levels + depth) (aliases : Bool) :
    Keeps depth (expansions levels aliases) (expansions (maxNesting - depth) aliases) := by
  induction levels generalizing depth aliases with
  | zero =>
      refine keeps_expansions_of_group h ?_ aliases
      rw [Nat.sub_eq_zero_of_le (by omega), group_zero]
      exact keeps_nested_of_le (by omega)
  | succ levels ih =>
      refine keeps_expansions_of_group h ?_ aliases
      by_cases hdepth : depth < maxNesting
      · rw [maxNesting_sub hdepth, group_succ]
        exact keeps_nested hdepth (keeps_groupWith (ih (by omega) true))
      · rw [Nat.sub_eq_zero_of_le (by omega), group_zero]
        exact keeps_nested_of_le (by omega)

/-- The body of a definition, where nothing is open yet. -/
theorem keeps_body (aliases : Bool) :
    Keeps 0 (expansions maxNesting aliases) (expansions maxNesting aliases) :=
  keeps_expansions (Nat.le_refl maxNesting) aliases

/-! ### Statements -/

theorem keeps_templateParams : Keeps depth templateParams templateParams := by
  refine keeps_kind.bind fun _ => Keeps.ite ?_ (keeps_pure _)
  refine keeps_take.bind fun _ => keeps_ruleName.separated.bind fun _ => ?_
  exact (keeps_sign _).map _

theorem keeps_priority : Keeps depth priority priority := by
  refine keeps_kind.bind fun _ => Keeps.ite ?_ (keeps_pure _)
  exact keeps_take.bind fun _ => keeps_number.map _

theorem keeps_rule : Keeps 0 rule rule := by
  refine keeps_take.bind fun _ => keeps_templateParams.bind fun _ => keeps_priority.bind fun _ => ?_
  exact (keeps_sign _).bind fun _ => (keeps_body true).map _

theorem keeps_term : Keeps 0 term term := by
  refine keeps_take.bind fun _ => keeps_priority.bind fun _ => ?_
  exact (keeps_sign _).bind fun _ => (keeps_body false).map _

theorem keeps_definition (expected : Expectation) :
    Keeps 0 (definition expected) (definition expected) := by
  refine keeps_kind.bind fun kind => ?_
  split
  · exact keeps_rule
  · exact keeps_term
  · exact keeps_unexpected expected

theorem keeps_importPath : Keeps depth importPath importPath := by
  refine keeps_current.bind fun _ => keeps_kind.bind fun _ => Keeps.ite ?_ ?_
  · refine keeps_take.bind fun _ => (keeps_pure _).bind fun _ => ?_
    exact keeps_name.separated.map _
  · refine (keeps_pure _).bind fun _ => ?_
    exact keeps_name.separated.map _

theorem keeps_imported (start : Span) : Keeps depth (imported start) (imported start) := by
  refine keeps_importPath.bind fun path => keeps_kind.bind fun kind => ?_
  split
  · refine keeps_take.bind fun _ => keeps_name.separated.bind fun _ => ?_
    exact (keeps_sign _).map _
  · exact keeps_take.bind fun _ => keeps_name.map _
  · exact keeps_pure _

theorem keeps_declared (start : Span) : Keeps depth (declared start) (declared start) :=
  keeps_name.bind fun _ => (Keeps.many keeps_name).map _

theorem keeps_redefinition (node : NodeKind) (which : Directive) (start : Span) :
    Keeps 0 (redefinition node which start) (redefinition node which start) :=
  (keeps_definition _).map _

theorem keeps_directive (name : String) : Keeps 0 (directive name) (directive name) := by
  unfold directive
  cases Directive.ofName? name with
  | none => exact keeps_refuse _
  | some which =>
      refine keeps_take.bind fun t => ?_
      cases which with
      | ignore => exact (keeps_body false).map _
      | importing => exact keeps_imported t.span
      | declare => exact keeps_declared t.span
      | override | extend => exact keeps_redefinition _ _ t.span

theorem keeps_statement : Keeps 0 statement statement := by
  refine keeps_kind.bind fun kind => ?_
  split
  · exact keeps_directive _
  · exact keeps_definition _

theorem keeps_endOfStatement : Keeps depth endOfStatement endOfStatement := by
  refine keeps_kind.bind fun kind => ?_
  split
  · exact keeps_take.map _
  · exact keeps_pure ()
  · exact keeps_unexpected _

theorem keeps_blankLines : Keeps depth blankLines blankLines :=
  (Keeps.many keeps_take).map _

theorem keeps_terminatedStatement : Keeps 0 terminatedStatement terminatedStatement :=
  keeps_statement.bind fun _ => keeps_endOfStatement.bind fun _ => keeps_blankLines.map _

/-- A text is read with nothing open before and behind it. -/
theorem keeps_grammar (length : Nat) : Keeps 0 (grammar length) (grammar length) :=
  keeps_blankLines.bind fun _ => (Keeps.many keeps_terminatedStatement).map _

end Parse

namespace Tree

/-- **A reading keeps nothing open.**  A reader with nothing open reads what its tokens are, and
stops with nothing open, whether they have a tree or not. -/
theorem ofTokens_ofStream (source : String) (stream : TokenStream) :
    ofTokens source (Reader.ofStream stream) =
      ((ofTokens source stream).1, Reader.ofStream (ofTokens source stream).2) := by
  have hgrammar := Parse.keeps_grammar (Text.byteLength source.toList) stream
  rw [ofTokens, ofTokens, Reader.ofStream, hgrammar]
  cases Parse.grammar (Text.byteLength source.toList) stream <;> rfl

/-- The tree of a text is the one of its tokens. -/
theorem ofSource_eq (source : String) :
    ofSource source = (ofTokens source (TokenStream.ofSource source)).1 := by
  rw [ofSource, Reader.ofSource, ofTokens_ofStream]

end Tree

end GrammarCatalog
