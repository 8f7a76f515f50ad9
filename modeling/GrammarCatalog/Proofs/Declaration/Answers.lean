/-
**Answers that agree.**

Two texts whose significant tokens are alike are answered alike: both have a tree, and the trees
match, or both are rejected at tokens that are alike, for the same reason.  What trees declare is
read off their tokens, so the same is collected from both texts, and every policy selects the same
names.  Comments are not significant, and leaving them out changes no other token nor the line it is
on; so a text and the same without its comments are answered alike.  The same goes for blanks put
between tokens, if the text is spelled well.

Main definitions:

* `GrammarCatalog.AnswersAgree` — two answers agree: with values, or with parse errors;
* `GrammarCatalog.ParseError.SameLine` — two parse errors agree in message and line.

Main results:

* `GrammarCatalog.Tree.answersAgree_ofSource` — texts with tokens that are alike are answered alike;
* `GrammarCatalog.AnswersAgree.collected`, `GrammarCatalog.AnswersAgree.ruleNames` — the same is
  collected, and the same names are selected;
* `GrammarCatalog.Tree.comments_change_nothing` — **comments are passed over**;
* `GrammarCatalog.Tree.spacing_changes_nothing` — **blanks between tokens are passed over**.
-/

import GrammarCatalog.Proofs.Declaration.NoFault
import GrammarCatalog.Proofs.Declaration.Terminals
import GrammarCatalog.Proofs.Token.Comments
import GrammarCatalog.Proofs.Token.Spacing
import GrammarCatalog.Proofs.Tree.EmptySlots
import GrammarCatalog.Proofs.Tree.Matching

set_option relaxedAutoImplicit false
set_option autoImplicit false

namespace GrammarCatalog

variable {L : Likeness}

/-! ### Slots that match -/

namespace Child

variable {slots slots' : List Child}

/-- Slots that match are the same up to where they are. -/
theorem AllMatch.map_unplaced_eq (h : AllMatch L slots slots') :
    slots'.map unplaced = slots.map unplaced := by
  induction h using AllMatch.slots_induction with
  | nil => rfl
  | tree kind _ _ _ ih ih' => simp [Tree.unplaced_node, ih, ih']
  | token hleaf _ ih => simp [L.kind_eq hleaf, ih]
  | absent _ ih => simp [ih]

theorem AllMatch.ruleName?_getElem? (h : AllMatch L slots slots') (i : ℕ) :
    slots'[i]?.bind ruleName? = slots[i]?.bind ruleName? := by
  induction slots generalizing slots' i with
  | nil => cases h with | nil => rfl
  | cons slot slots ih =>
      cases h with
      | @cons _ slot' _ slots' hslot hslots =>
          cases i with
          | succ i => exact ih hslots i
          | zero =>
              cases hslot with
              | tree _ => rfl
              | token hleaf => simp [ruleName?, token?, L.kind_eq hleaf]
              | absent => rfl

/-- Slots that match make the same events. -/
theorem AllMatch.made_eq (h : AllMatch L slots slots') : made slots' = made slots := by
  induction h using AllMatch.slots_induction with
  | nil => rfl
  | tree kind hchildren _ _ ih ih' =>
      rw [made_cons, made_event, made_cons (tree _), made_event, ih, ih']
      simp only [Tree.event?, Tree.kind_node, Tree.children_node, hchildren.ruleName?_getElem?]
  | token _ _ ih => rw [made_token, made_token, ih]
  | absent _ ih => rw [made_absent, made_absent, ih]

/-- The tokens in slots that match are alike. -/
theorem AllMatch.forall₂_leavesAll (h : AllMatch L slots slots') :
    List.Forall₂ L.token (leavesAll slots) (leavesAll slots') := by
  induction h using AllMatch.slots_induction with
  | nil => exact .nil
  | tree _ _ _ _ ih ih' => exact List.rel_append ih ih'
  | token hleaf _ ih => exact .cons hleaf ih
  | absent _ ih => exact ih

/-- So much is known of the places of the nodes in slots that match. -/
theorem AllMatch.forall₂_preorderAll (h : AllMatch L slots slots') :
    List.Forall₂ (fun node node' : Tree => L.span node.span node'.span) (preorderAll slots)
      (preorderAll slots') := by
  induction h using AllMatch.slots_induction with
  | nil => exact .nil
  | tree _ _ hspan _ ih ih' => exact .cons hspan (List.rel_append ih ih')
  | token _ _ ih => exact ih
  | absent _ ih => exact ih

end Child

namespace Tree.Matches

variable {tree tree' : Tree}

theorem allMatch (h : tree.Matches L tree') : Child.AllMatch L [.tree tree] [.tree tree'] :=
  .cons (.tree h) .nil

/-- Nodes that match are the same up to where they are. -/
theorem unplaced_eq (h : tree.Matches L tree') : tree'.unplaced = tree.unplaced := by
  simpa using h.allMatch.map_unplaced_eq

end Tree.Matches

/-! ### Answers -/

/-- Two answers agree: with values of which something is known, or with parse errors of which
something is known. -/
inductive AnswersAgree {α β : Type} (E : ParseError → ParseError → Prop) (V : α → β → Prop) :
    Except Failure α → Except Failure β → Prop
  /-- Both texts are answered. -/
  | ok {value : α} {value' : β} (h : V value value') : AnswersAgree E V (.ok value) (.ok value')
  /-- Both texts are rejected. -/
  | rejected {error error' : ParseError} (h : E error error') :
      AnswersAgree E V (.error (.rejected error)) (.error (.rejected error'))

variable {source source' : String} {E : ParseError → ParseError → Prop}

theorem TokenStream.matches_ofSource
    (h : List.Forall₂ L.token (Token.significant source) (Token.significant source')) :
    (ofSource source).Matches L (ofSource source') := by
  rw [← toList_ofSource, ← toList_ofSource] at h
  cases h with
  | cons hcurrent hahead => exact ⟨hcurrent, hahead⟩

/-- **Texts with tokens that are alike are answered alike**: their trees match, or they are rejected
at tokens that are alike. -/
theorem Tree.answersAgree_ofSource
    (h : List.Forall₂ L.token (Token.significant source) (Token.significant source'))
    (hE : ∀ token ∈ Token.significant source, ∀ token' ∈ Token.significant source',
      L.token token token' → ∀ (message lineText lineText' : String),
        token.span.lineText? source = some lineText →
        token'.span.lineText? source' = some lineText' →
          E ⟨message, token.span.line, token.span.column, lineText⟩
            ⟨message, token'.span.line, token'.span.column, lineText'⟩) :
    AnswersAgree E (Tree.Matches L) (ofSource source) (ofSource source') := by
  have houtcomes := Parse.alike_grammar (L := L) (Text.byteLength source.toList)
    (Text.byteLength source'.toList) _ _ (TokenStream.matches_ofSource h)
  have hstays := Parse.stays_grammar (Text.byteLength source.toList) (TokenStream.ofSource source)
  have hstays' := Parse.stays_grammar (Text.byteLength source'.toList)
    (TokenStream.ofSource source')
  simp only [ofSource_eq, ofTokens, TokenSource.stream_eq]
  generalize Parse.grammar (Text.byteLength source.toList) (TokenStream.ofSource source) = outcome
    at houtcomes hstays ⊢
  generalize Parse.grammar (Text.byteLength source'.toList) (TokenStream.ofSource source') =
    outcome' at houtcomes hstays' ⊢
  cases houtcomes with
  | accepted htree _ => exact .ok htree
  | @refused reason rest rest' hrest =>
      have hmem : rest.current ∈ _ := current_mem_significant hstays
      have hmem' : rest'.current ∈ _ := current_mem_significant hstays'
      obtain ⟨lineText, hline, hfailure⟩ := reason.toFailure_of_mem hmem
      obtain ⟨lineText', hline', hfailure'⟩ := reason.toFailure_of_mem hmem'
      simp only [hfailure, hfailure']
      exact .rejected (hE _ hmem _ hmem' hrest.current reason.message _ _ hline hline')

/-- Every policy selects names from what is collected. -/
theorem Collected.exists_baseNames_eq_ok {collected : Collected}
    (h : ofSource source = .ok collected) (policy : Policy) :
    ∃ names, collected.baseNames policy = .ok names := by
  cases htree : Tree.ofSource source with
  | error failure => simp [ofSource, htree, bind, Except.bind] at h
  | ok tree =>
      obtain ⟨collected', hcollect, hdeclared⟩ := Tree.exists_collect_eq_ok htree
      obtain rfl : collected' = collected := by
        simpa [ofSource, htree, hcollect, bind, Except.bind, Except.mapError] using h
      obtain ⟨names, hnames, -⟩ := exists_select_eq_ok policy hdeclared
      exact ⟨_, by rw [baseNames, hnames]; rfl⟩

namespace AnswersAgree

theorem imp {α β : Type} {V W : α → β → Prop} {answer : Except Failure α}
    {answer' : Except Failure β} (h : AnswersAgree E V answer answer')
    (hvalues : ∀ value value', V value value' → W value value') :
    AnswersAgree E W answer answer' := by
  cases h with
  | ok h => exact .ok (hvalues _ _ h)
  | rejected h => exact .rejected h

/-- What is collected from trees that match is the same. -/
theorem collected
    (h : AnswersAgree E (Tree.Matches L) (Tree.ofSource source) (Tree.ofSource source')) :
    AnswersAgree E Eq (Collected.ofSource source) (Collected.ofSource source') := by
  unfold Collected.ofSource
  generalize htree : Tree.ofSource source = answer at h
  generalize htree' : Tree.ofSource source' = answer' at h
  cases h with
  | rejected herror => exact .rejected herror
  | @ok tree tree' hmatches =>
      obtain ⟨collector, hcollect, hgathers⟩ := Tree.collect_ofSource htree
      obtain ⟨collector', hcollect', hgathers'⟩ := Tree.collect_ofSource htree'
      rw [hmatches.allMatch.made_eq] at hgathers'
      change AnswersAgree E Eq (tree.collect.mapError _) (tree'.collect.mapError _)
      rw [hcollect, hcollect']
      exact .ok (hgathers.collected_eq hgathers')

/-- The names that a policy selects from what is collected are the same. -/
theorem ruleNames (h : AnswersAgree E Eq (Collected.ofSource source) (Collected.ofSource source'))
    (policy : Policy) :
    AnswersAgree E Eq (ruleNames source policy) (ruleNames source' policy) := by
  unfold GrammarCatalog.ruleNames
  generalize hcollected : Collected.ofSource source = answer at h
  generalize hcollected' : Collected.ofSource source' = answer' at h
  cases h with
  | rejected herror => exact .rejected herror
  | @ok collected _ heq =>
      subst heq
      obtain ⟨names, hnames⟩ := Collected.exists_baseNames_eq_ok hcollected policy
      change AnswersAgree E Eq ((collected.baseNames policy).mapError _)
        ((collected.baseNames policy).mapError _)
      rw [hnames]
      exact .ok rfl

end AnswersAgree

/-! ### Comments -/

/-- Two parse errors agree in message and line. -/
structure ParseError.SameLine (error error' : ParseError) : Prop where
  /-- They say the same. -/
  message : error.message = error'.message
  /-- They are about the same line. -/
  line : error.line = error'.line

/-- Tokens are the same and on the same line, and so are nodes. -/
def Likeness.sameLine : Likeness where
  token := Token.SameLine
  span span span' := span.line = span'.line
  kind_eq h := h.kind
  span_token h := h.line
  origin := rfl
  ended h _ _ := h

namespace Tree

/-- **Comments are passed over.**  Without its comments a text has the same other tokens, on the
same lines; it has the same tree, up to where this is, or is rejected with the same message on the
same line; and every policy selects the same names. -/
theorem comments_change_nothing (source : String) :
    List.Forall₂ Token.SameLine (Token.significant source)
      (Token.significant (Text.uncommented source)) ∧
    AnswersAgree ParseError.SameLine (fun tree tree' => tree'.unplaced = tree.unplaced)
      (ofSource source) (ofSource (Text.uncommented source)) ∧
    ∀ policy, AnswersAgree ParseError.SameLine Eq (ruleNames source policy)
      (ruleNames (Text.uncommented source) policy) := by
  have htokens := Token.forall₂_uncommented source
  have htrees : AnswersAgree ParseError.SameLine (Tree.Matches .sameLine)
      (ofSource source) (ofSource (Text.uncommented source)) := by
    refine answersAgree_ofSource htokens ?_
    intro token _ token' _ htoken message lineText lineText' _ _
    exact ⟨rfl, htoken.line⟩
  refine ⟨htokens, ?_, htrees.collected.ruleNames⟩
  exact htrees.imp fun _ _ htree => htree.unplaced_eq

/-- **Blanks between tokens are passed over.**  Where no token of a text is a defect, blanks that
end no line may be put wherever tokens begin or end: the text has the same tokens but for comments,
on the same lines, and it has the same tree, up to where this is, or is rejected with the same
message on the same line. -/
theorem spacing_changes_nothing {source : String} {blanks : ℕ → List Char}
    (hspelled : ∀ token ∈ Token.ofSource source, ∀ defect, token.kind ≠ .malformed defect)
    (hblanks : ∀ offset, ∀ c ∈ blanks offset, Text.isSpacing c = true)
    (hedge : ∀ offset, blanks offset ≠ [] →
      ∃ token ∈ Token.ofSource source, offset = token.span.start ∨ offset = token.span.stop) :
    List.Forall₂ Token.SameLine (Token.significant source)
      (Token.significant (Text.spaced blanks source)) ∧
    AnswersAgree ParseError.SameLine (fun tree tree' => tree'.unplaced = tree.unplaced)
      (ofSource source) (ofSource (Text.spaced blanks source)) := by
  have htokens := Token.forall₂_spaced hspelled hblanks hedge
  have htrees : AnswersAgree ParseError.SameLine (Tree.Matches .sameLine)
      (ofSource source) (ofSource (Text.spaced blanks source)) := by
    refine answersAgree_ofSource htokens ?_
    intro token _ token' _ htoken message lineText lineText' _ _
    exact ⟨rfl, htoken.line⟩
  exact ⟨htokens, htrees.imp fun _ _ htree => htree.unplaced_eq⟩

/-- A name that begins with the letter of a flag may be moved away from a string, which does not
have the flag in either text. -/
theorem spacing_behind_string :
    List.Forall₂ Token.SameLine (Token.significant "a: \"b\"ib\n")
      (Token.significant "a: \"b\"\t ib\n") ∧
    AnswersAgree ParseError.SameLine (fun tree tree' => tree'.unplaced = tree.unplaced)
      (ofSource "a: \"b\"ib\n") (ofSource "a: \"b\"\t ib\n") := by
  have htokens : Token.ofSource "a: \"b\"ib\n" =
      [⟨.rule "a", ⟨0, 1, 1, 1⟩⟩, ⟨.punctuation .colon, ⟨1, 2, 1, 2⟩⟩,
        ⟨.string "b" false, ⟨3, 6, 1, 4⟩⟩, ⟨.rule "ib", ⟨6, 8, 1, 7⟩⟩, ⟨.newline, ⟨8, 9, 1, 9⟩⟩,
        ⟨.endOfInput, ⟨9, 9, 2, 1⟩⟩] := by cbv
  have hspaced : Text.spaced (fun offset => if offset = 6 then ['\t', ' '] else [])
      "a: \"b\"ib\n" = "a: \"b\"\t ib\n" := by cbv
  rw [← hspaced]
  refine spacing_changes_nothing ?_ ?_ ?_
  · rw [htokens]
    simp
  · intro offset c hc
    split at hc
    · simp only [List.mem_cons, List.not_mem_nil, or_false] at hc
      rcases hc with rfl | rfl <;> decide
    · contradiction
  · intro offset hne
    split at hne
    · rename_i hoffset
      exact ⟨⟨.rule "ib", ⟨6, 8, 1, 7⟩⟩, by rw [htokens]; simp, Or.inl hoffset⟩
    · contradiction

end Tree

end GrammarCatalog
