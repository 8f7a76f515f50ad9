/-
**Texts that have a tree.**

The parser of a whole text recognizes the derivations of lines: statements, each with the end of
its line or of the text behind it, and line breaks without one.  The text has to be used up, so
nothing can stand behind that would extend it.

It follows that a text has a tree exactly when the kinds of its tokens, comments left out, are a
sentence of the meta-grammar.

Main results:

* `GrammarCatalog.Parse.sound_grammar`, `GrammarCatalog.Parse.complete_grammar` — what is accepted
  as a text is derived, and what is derived is accepted;
* `GrammarCatalog.Tree.ofSource_eq_ok_iff` — the tree of a text is the one that is derived;
* `GrammarCatalog.Tree.exists_ofSource_iff_mem_sentence` — **the parser accepts exactly its
  grammar**.
-/

import GrammarCatalog.Proofs.MetaGrammar.Statements
import GrammarCatalog.Proofs.Token.Steps
import GrammarCatalog.Proofs.Tree.Levels

set_option relaxedAutoImplicit false
set_option autoImplicit false

namespace GrammarCatalog

namespace Parse

open Phrase (Derives)

variable {n : ℕ} {s m r : TokenStream}

/-! ### Lines -/

theorem consumes_take : Consumes (· == .newline) take := by
  intro s t r hs calls haccepted
  simp only [take_apply, Outcome.accepted.injEq] at haccepted
  obtain ⟨rfl, rfl⟩ := haccepted
  obtain ⟨t, m, rfl, -⟩ := hs.exists_cons (by intro h; simp [h] at calls)
  exact ⟨[t], by simp, rfl⟩

/-- Past line breaks, no line break is next, and the lines that follow may begin with them. -/
theorem sound_blankLines {u : Unit} (hs : s.Terminated) (haccepted : blankLines s = .accepted u r) :
    r.Terminated ∧ r.current.kind ≠ .newline ∧ ∀ m slots, Derives .lines n r m slots →
      Derives .lines n s m slots := by
  simp only [blankLines, bind_eq_accepted_iff, pure_apply, Outcome.accepted.injEq] at haccepted
  obtain ⟨newlines, m, hnewlines, -, rfl⟩ := haccepted
  refine many_induction consumes_take (motive := fun s _ => s.Terminated → m.Terminated ∧
    m.current.kind ≠ .newline ∧ ∀ r slots, Derives .lines n m r slots →
      Derives .lines n s r slots) ?_ ?_ hs hnewlines hs
  · intro hstop hm
    exact ⟨hm, by simpa using hstop, fun _ _ h => h⟩
  · intro s t m' newlines hs calls htake ih _
    simp only [take_apply, Outcome.accepted.injEq] at htake
    obtain ⟨rfl, rfl⟩ := htake
    obtain ⟨t, m', rfl, hm'⟩ := hs.exists_cons (by intro h; simp [h] at calls)
    obtain ⟨hm, hkind, hlines⟩ := ih hm'
    exact ⟨hm, hkind, fun r slots h => .blankLine (by simpa using calls) (hlines r slots h)⟩

/-- Behind a statement stands the end of the text, or a line break and others behind it. -/
theorem sound_terminatedStatement {tree : Tree} (hs : s.Terminated)
    (haccepted : terminatedStatement s = .accepted tree r) :
    ∃ m, Derives .statement maxNesting s m [.tree tree] ∧
      (m.current.kind = .endOfInput ∧ m = r ∨
        ∃ newline m', m = m'.cons newline ∧ newline.kind = .newline ∧
          blankLines m' = .accepted () r) := by
  simp only [terminatedStatement, bind_eq_accepted_iff, pure_apply,
    Outcome.accepted.injEq] at haccepted
  obtain ⟨tree, m, htree, _, m₁, hend, _, m₂, hblank, rfl, rfl⟩ := haccepted
  have hstatement := recognizes_statement.sound hs htree
  refine ⟨m, hstatement, ?_⟩
  have hm := hs.of_suffix hstatement.suffix
  simp only [endOfStatement, bind_apply, kind_apply, andThen_accepted] at hend
  cases hkind : m.current.kind with
  | newline =>
      obtain ⟨newline, m', rfl, hm'⟩ := hm.exists_cons (by simp [hkind])
      rw [TokenStream.current_cons] at hkind
      simp only [TokenStream.current_cons, hkind, bind_apply, take_apply, andThen_accepted,
        TokenStream.advance_cons, pure_apply, Outcome.accepted.injEq] at hend
      obtain ⟨-, rfl⟩ := hend
      exact Or.inr ⟨newline, m', rfl, hkind, hblank⟩
  | endOfInput =>
      simp only [hkind, pure_apply, Outcome.accepted.injEq] at hend
      obtain ⟨-, rfl⟩ := hend
      have hstop : many (· == .newline) take m = .accepted [] m := many_of_stop (by simp [hkind])
      simp only [blankLines, bind_apply, hstop, andThen_accepted, pure_apply,
        Outcome.accepted.injEq, true_and] at hblank
      exact Or.inl ⟨rfl, hblank⟩
  | _ =>
      rw [hkind] at hend
      exact absurd hend (unexpected_ne_accepted _ _ _)

theorem consumes_terminatedStatement : Consumes (· != .endOfInput) terminatedStatement := by
  intro s tree r hs _ haccepted
  obtain ⟨m, hstatement, hend⟩ := sound_terminatedStatement hs haccepted
  obtain ⟨taken, hne, htaken⟩ := hstatement.exists_taken Nat.one_pos
  rcases hend with ⟨-, rfl⟩ | ⟨newline, m', rfl, -, hblank⟩
  · exact ⟨taken, hne, htaken⟩
  · have hm' := (hs.of_suffix hstatement.suffix).of_cons
    obtain ⟨hr, -, hlines⟩ := sound_blankLines (n := maxNesting) hm' hblank
    obtain ⟨between, hbetween⟩ := (hlines r [] .noLine).suffix
    refine ⟨taken ++ newline :: between, by simp, ?_⟩
    simp [htaken, ← hbetween]

/-- **What is accepted as a text is derived**, up to the end of the text. -/
theorem sound_grammar {length : ℕ} {tree : Tree} (hs : s.Terminated)
    (haccepted : grammar length s = .accepted tree r) :
    ∃ trees : List Tree, tree = .node .start (trees.map .tree) ⟨0, length, 1, 1⟩ ∧
      Derives .lines maxNesting s r (trees.map .tree) ∧ r.current.kind = .endOfInput := by
  simp only [grammar, bind_eq_accepted_iff, pure_apply, Outcome.accepted.injEq] at haccepted
  obtain ⟨_, m, hblank, trees, r, htrees, rfl, rfl⟩ := haccepted
  obtain ⟨hm, -, hlines⟩ := sound_blankLines (n := maxNesting) hs hblank
  -- at the end of the text no statement is left
  have hrest : (m.current.kind = .endOfInput → trees = [] ∧ m = r) ∧
      Derives .lines maxNesting m r (trees.map .tree) ∧ r.current.kind = .endOfInput := by
    refine many_induction consumes_terminatedStatement (motive := fun m trees =>
      (m.current.kind = .endOfInput → trees = [] ∧ m = r) ∧
        Derives .lines maxNesting m r (trees.map .tree) ∧ r.current.kind = .endOfInput)
      ?_ ?_ hm htrees
    · intro hstop
      exact ⟨fun _ => ⟨rfl, rfl⟩, .noLine, by simpa using hstop⟩
    · intro s tree m trees hs calls hfirst ⟨hend, hderives, hr⟩
      refine ⟨fun hkind => by simp [hkind] at calls, ?_, hr⟩
      obtain ⟨m', hstatement, ⟨hkind, rfl⟩ | ⟨newline, m', rfl, hnewline, hblank⟩⟩ :=
        sound_terminatedStatement hs hfirst
      · obtain ⟨rfl, rfl⟩ := hend hkind
        exact .lastLine hstatement
      · have hm' := (hs.of_suffix hstatement.suffix).of_cons
        exact .line hstatement hnewline ((sound_blankLines hm' hblank).2.2 _ _ hderives)
  exact ⟨trees, rfl, hlines _ _ hrest.2.1, hrest.2.2⟩

/-- A statement begins with a name or a directive. -/
theorem isName_or_isDirective_of_statement {slots : List Child}
    (h : Derives .statement n s r slots) :
    s.current.kind.isName = true ∨ ∃ which, s.current.kind.isDirective which = true := by
  cases h with
  | defines h => exact Or.inl (isName_of_definition h)
  | ignore ht | importPath ht | importAs ht | importNames ht | declare ht | override ht
  | extend ht => exact Or.inr ⟨_, ht⟩

theorem current_of_statement {slots : List Child} (h : Derives .statement n s r slots) :
    s.current.kind ≠ .newline ∧ s.current.kind ≠ .endOfInput := by
  have hkind := isName_or_isDirective_of_statement h
  constructor <;> intro heq <;>
    simp [heq, TokenKind.isName, TokenKind.isRule, TokenKind.isTerminal,
      TokenKind.isDirective] at hkind

theorem exists_tree_of_statement {slot : Child} (h : Derives .statement n s r [slot]) :
    ∃ tree, slot = .tree tree := by
  cases h <;> exact ⟨_, rfl⟩

theorem blankLines_of_stop (h : s.current.kind ≠ .newline) :
    blankLines s = .accepted () s := by
  have hstop : many (· == .newline) take s = .accepted [] s := many_of_stop (by simpa using h)
  simp [blankLines, hstop]

theorem blankLines_cons {t : Token} (hs : (s.cons t).Terminated) (ht : t.kind = .newline)
    (h : blankLines s = .accepted () r) : blankLines (s.cons t) = .accepted () r := by
  rw [blankLines, bind_eq_accepted_iff] at h ⊢
  obtain ⟨newlines, m, hnewlines, hm⟩ := h
  exact ⟨t :: newlines, m, many_of_round consumes_take hs (by simp [ht]) rfl hnewlines, hm⟩

theorem complete_terminatedStatement {tree : Tree} {newline : Token}
    (hs : s.Terminated) (h : Derives .statement maxNesting s (m.cons newline) [.tree tree])
    (hnewline : newline.kind = .newline) (hblank : blankLines m = .accepted () r) :
    terminatedStatement s = .accepted tree r := by
  have haccepted := recognizes_statement.complete hs h
    (by simp [extendsStatement, hnewline, TokenKind.endsStatement])
  simp [terminatedStatement, endOfStatement, haccepted, hnewline, hblank]

theorem complete_lastStatement {tree : Tree} (hs : s.Terminated)
    (h : Derives .statement maxNesting s r [.tree tree]) (hr : r.current.kind = .endOfInput) :
    terminatedStatement s = .accepted tree r := by
  have haccepted := recognizes_statement.complete hs h
    (by simp [extendsStatement, hr, TokenKind.endsStatement])
  have hblank := blankLines_of_stop (s := r) (by simp [hr])
  simp [terminatedStatement, endOfStatement, haccepted, hr, hblank]

/-- Lines are accepted: line breaks first, and then statements up to the end of the text. -/
theorem complete_lines {slots : List Child} (hs : s.Terminated)
    (h : Derives .lines maxNesting s r slots) (hr : r.current.kind = .endOfInput) :
    ∃ (m : TokenStream) (trees : List Tree), slots = trees.map .tree ∧
      blankLines s = .accepted () m ∧
      many (· != .endOfInput) terminatedStatement m = .accepted trees r := by
  generalize hphrase : Phrase.lines = phrase at h
  generalize hn : maxNesting = n at h
  induction h with
  | noLine => exact ⟨_, [], rfl, blankLines_of_stop (by simp [hr]), many_of_stop (by simp [hr])⟩
  | blankLine hnewline _ ih =>
      obtain ⟨m, trees, htrees, hblank, hmany⟩ := ih hs.of_cons hr hphrase hn
      exact ⟨m, trees, htrees, blankLines_cons hs hnewline hblank, hmany⟩
  | @line _ newline s _ _ statement _ hstatement hnewline _ _ ih =>
      subst hn
      have hm := (hs.of_suffix hstatement.suffix).of_cons
      obtain ⟨m, trees, rfl, hblank, hmany⟩ := ih hm hr hphrase rfl
      obtain ⟨tree, rfl⟩ := exists_tree_of_statement hstatement
      have hstart := current_of_statement hstatement
      have hfirst := complete_terminatedStatement hs hstatement hnewline hblank
      exact ⟨s, tree :: trees, rfl, blankLines_of_stop hstart.1,
        many_of_round consumes_terminatedStatement hs (by simpa using hstart.2) hfirst hmany⟩
  | @lastLine _ s _ statement hstatement =>
      subst hn
      obtain ⟨tree, rfl⟩ := exists_tree_of_statement hstatement
      have hstart := current_of_statement hstatement
      have hfirst := complete_lastStatement hs hstatement hr
      exact ⟨s, [tree], rfl, blankLines_of_stop hstart.1,
        many_of_round consumes_terminatedStatement hs (by simpa using hstart.2) hfirst
          (many_of_stop (by simp [hr]))⟩
  | _ => cases hphrase

/-- **What is derived is accepted as a text**, up to the end of the text. -/
theorem complete_grammar {length : ℕ} {trees : List Tree} (hs : s.Terminated)
    (h : Derives .lines maxNesting s r (trees.map .tree)) (hr : r.current.kind = .endOfInput) :
    grammar length s = .accepted (.node .start (trees.map .tree) ⟨0, length, 1, 1⟩) r := by
  obtain ⟨m, trees', htrees, hblank, hmany⟩ := complete_lines hs h hr
  simp [grammar, hblank, hmany, htrees]

end Parse

namespace Tree

open Phrase (Derives)

/-- The tree of a text is the one that is derived from its tokens. -/
theorem ofSource_eq_ok_iff {source : String} {tree : Tree} :
    ofSource source = .ok tree ↔
      ∃ (trees : List Tree) (r : TokenStream),
        tree = .node .start (trees.map .tree) ⟨0, Text.byteLength source.toList, 1, 1⟩ ∧
        Derives .lines Parse.maxNesting (TokenStream.ofSource source) r (trees.map .tree) ∧
        r.current.kind = .endOfInput := by
  have hs := TokenStream.terminated_ofSource source
  rw [ofSource_eq, ofTokens]
  constructor
  · intro h
    cases hgrammar : Parse.grammar (Text.byteLength source.toList)
        (TokenStream.ofSource source) with
    | accepted value r =>
        rw [hgrammar] at h
        obtain rfl : value = tree := by simpa using h
        obtain ⟨trees, htree, hderives, hr⟩ := Parse.sound_grammar hs hgrammar
        exact ⟨trees, r, htree, hderives, hr⟩
    | refused reason r => simp [hgrammar] at h
  · rintro ⟨trees, r, rfl, hderives, hr⟩
    rw [Parse.complete_grammar hs hderives hr]

/-- **The parser accepts exactly its grammar**: a text has a tree if and only if the kinds of its
tokens, comments left out, are a sentence. -/
theorem exists_ofSource_iff_mem_sentence (source : String) :
    (∃ tree, ofSource source = .ok tree) ↔
      (Token.significant source).map Token.kind ∈ MetaGrammar.sentence := by
  rw [← TokenStream.toList_ofSource]
  have hs := TokenStream.terminated_ofSource source
  generalize hstream : TokenStream.ofSource source = s at hs
  constructor
  · rintro ⟨tree, htree⟩
    obtain ⟨trees, r, -, hderives, hr⟩ := ofSource_eq_ok_iff.1 htree
    rw [hstream] at hderives
    obtain ⟨taken, rfl, hword⟩ := hderives.spells
    -- behind the lines stands the end of the text, and nothing behind that
    have hahead : r.ahead = [] := (hs.of_suffix hderives.suffix).current_iff.1 hr
    rw [TokenStream.toList_prepend, List.map_append]
    refine Language.append_mem_mul hword ⟨r.current.kind, by simp [hr], ?_⟩
    simp [TokenStream.toList, hahead]
  · intro hword
    obtain ⟨front, hfront, back, ⟨kind, hkind, rfl⟩, heq⟩ := Language.mem_mul.1 hword
    obtain ⟨taken, last, hlist, rfl, hlast⟩ := List.map_eq_append_iff.1 heq.symm
    obtain ⟨t, rfl, rfl⟩ := List.map_eq_singleton_iff.1 hlast
    obtain rfl : s = TokenStream.prepend ⟨t, []⟩ taken :=
      TokenStream.toList_injective (by rw [hlist, TokenStream.toList_prepend]; rfl)
    obtain ⟨trees, hderives⟩ := Phrase.exists_derives_lines ⟨taken, rfl, hfront⟩
    refine ⟨_, ofSource_eq_ok_iff.2 ⟨trees, ⟨t, []⟩, rfl, ?_, by simpa using hkind⟩⟩
    rw [hstream]
    exact hderives

end Tree

end GrammarCatalog
