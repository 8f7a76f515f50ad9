/-
**The names that can be declared.**

Markers are read twice: the scanner reads them as a part of a rule name, and classifying a
declaration takes them off again, each by its own rules.  Both go by one form, an exclamation mark
or none, an underscore or a question mark or neither, and a base name in lower case.  A definition
can begin with a word exactly when the word has that form; and then taking the word apart gives its
markers and its base name, where any markers go with any base name, and no two words have both in
common.

Main definitions:

* `GrammarCatalog.Pattern.ruleName` stands for the form, and says nothing of either reading.

Main results:

* `GrammarCatalog.Pattern.mem_ruleName_iff` — the form, as markers in front of a base name;
* `GrammarCatalog.TokenKind.rescans_rule` — a word of that form is read as one rule name;
* `GrammarCatalog.Collected.ofSource_definition` — a definition of the word declares it;
* `GrammarCatalog.Collected.declares_iff_mem_ruleName` — **both readings go by that form**.
-/

import GrammarCatalog.Proofs.Declaration.Filtering
import GrammarCatalog.Proofs.Declaration.NoFault
import GrammarCatalog.Proofs.Declaration.Origins
import GrammarCatalog.Proofs.Token.Alone
import GrammarCatalog.Proofs.Token.Patterns

set_option relaxedAutoImplicit false
set_option autoImplicit false

namespace GrammarCatalog

open Decomposition (IsDeclared)

/-! ### The form of a declared name -/

namespace Pattern

open scoped Computability

variable {p : Char → Bool} {word : List Char}

theorem forall_of_mem_kstar_one (h : word ∈ (one p)∗) : ∀ c ∈ word, p c = true := by
  obtain ⟨parts, rfl, hparts⟩ := Language.mem_kstar.1 h
  intro c hc
  obtain ⟨part, hpart, hmem⟩ := List.mem_flatten.1 hc
  obtain ⟨d, hd, rfl⟩ := hparts part hpart
  obtain rfl := List.mem_singleton.1 hmem
  exact hd

/-- A base name is a letter of one case, and then such letters, digits and underscores. -/
theorem mem_uniform_iff {isLetter : Char → Bool} :
    word ∈ uniform isLetter ↔ Name.isUniform isLetter word = true := by
  refine ⟨fun h => ?_, mem_uniform⟩
  obtain ⟨first, ⟨c, hc, rfl⟩, rest, hrest, rfl⟩ := Language.mem_mul.1 h
  rw [List.singleton_append, Name.isUniform, hc, Bool.true_and, List.all_eq_true]
  exact forall_of_mem_kstar_one hrest

theorem mem_optional_iff {c : Char} : word ∈ optional c ↔ word = [] ∨ word = [c] := by
  rw [optional, Language.mem_add, Language.mem_one]
  rfl

/-- An exclamation mark that may be left out is the marker of a pinned name. -/
theorem mem_optional_bang_iff :
    word ∈ optional '!' ↔ ∃ pinned : Bool, word = if pinned then ['!'] else [] := by
  rw [mem_optional_iff, Bool.exists_bool]
  rfl

/-- Rule names are spelled as declared names are: as markers in front of a base name. -/
theorem mem_ruleName_iff : word ∈ ruleName ↔ IsDeclared word := by
  refine ⟨fun h => ?_, mem_ruleName_of_isDeclared⟩
  rw [ruleName, Language.mem_add] at h
  rcases h with h | h
  · obtain ⟨front, hfront, base, hbase, rfl⟩ := Language.mem_mul.1 h
    obtain ⟨bang, hbang, question, hquestion, rfl⟩ := Language.mem_mul.1 hfront
    obtain ⟨pinned, rfl⟩ := mem_optional_bang_iff.1 hbang
    rcases mem_optional_iff.1 hquestion with rfl | rfl
    · exact ⟨⟨pinned, .visible⟩, base, rfl, mem_uniform_iff.1 hbase⟩
    · exact ⟨⟨pinned, .conditional⟩, base, rfl, mem_uniform_iff.1 hbase⟩
  · obtain ⟨front, hfront, base, hbase, rfl⟩ := Language.mem_mul.1 h
    obtain ⟨bang, hbang, underscore, hunderscore, rfl⟩ := Language.mem_mul.1 hfront
    obtain ⟨pinned, rfl⟩ := mem_optional_bang_iff.1 hbang
    obtain rfl : underscore = ['_'] := hunderscore
    exact ⟨⟨pinned, .inner⟩, base, rfl, mem_uniform_iff.1 hbase⟩

end Pattern

/-! ### The word as a token -/

namespace Lexeme

variable {text : List Char}

theorem isPart_of_isUniform (h : Name.isUniform Char.isLower text = true) :
    ∀ c ∈ text, Name.isPart c = true := by
  cases text with
  | nil => contradiction
  | cons c text =>
      rw [Name.isUniform, Bool.and_eq_true, List.all_eq_true] at h
      have hlower {d : Char} (hd : d.isLower = true) : Name.isPart d = true := by
        simp [Name.isPart, Name.isStart_of_isLower hd]
      refine List.forall_mem_cons.2 ⟨hlower h.1, fun d hd => ?_⟩
      have hclass := h.2 d hd
      simp only [Bool.or_eq_true, beq_iff_eq] at hclass
      rcases hclass with (rfl | hd) | hd
      · decide
      · exact hlower hd
      · simp [Name.isPart, hd]

/-- All of a rule name is made of name characters. -/
theorem isPart_of_isRule (h : Name.isRule text = true) : ∀ c ∈ text, Name.isPart c = true := by
  cases text with
  | nil => simp
  | cons c text =>
      by_cases hc : c = '_'
      · subst hc
        exact List.forall_mem_cons.2 ⟨by decide, isPart_of_isUniform h⟩
      · have hbody : Name.body (c :: text) = c :: text := by simp [Name.body, hc]
        rw [Name.isRule, hbody] at h
        exact isPart_of_isUniform h

/-- A rule name without marks is read as it stands. -/
theorem exists_scan_of_isRule (h : Name.isRule text = true) : ∃ c cs, text = c :: cs ∧
    scan true c cs = ⟨.rule (String.ofList text), text, []⟩ := by
  obtain ⟨c, cs, rfl, hc⟩ := Name.exists_isStart_of_isRule h
  refine ⟨c, cs, rfl, ?_⟩
  rw [scan_of_isStart hc, scanName_of_isPart (isPart_of_isRule h), nameKind, if_pos h]

/-- A rule name is read with its marks, unless it has an underscore behind a question mark. -/
theorem exists_scan_of_marks (marks : List Char)
    (hmarks : marks = ['!', '?'] ∨ marks = ['!'] ∨ marks = ['?']) (h : Name.isRule text = true)
    (hboth : ¬(marks.contains '?' && text.head? == some '_') = true) :
    ∃ c cs, marks ++ text = c :: cs ∧
      scan true c cs = ⟨.rule (String.ofList (marks ++ text)), marks ++ text, []⟩ := by
  obtain ⟨c, cs, rfl, hc⟩ := Name.exists_isStart_of_isRule h
  have hrest : ∀ d ∈ cs, Name.isPart d = true := (List.forall_mem_cons.1 (isPart_of_isRule h)).2
  have hkind : markedKind marks (c :: cs) = .rule (String.ofList (marks ++ c :: cs)) := by
    rw [markedKind, if_pos h, if_neg hboth]
  -- the marks are those that are split off in front of a name
  obtain ⟨front, hfront⟩ : ∃ front, (splitMarks front).1 = marks := by
    rcases hmarks with rfl | rfl | rfl
    · exact ⟨['!', '?'], rfl⟩
    · exact ⟨['!'], rfl⟩
    · exact ⟨['?'], rfl⟩
  have hsplit := splitMarks_append_start front cs hc
  have hmark := isMark_of_mem_splitMarks front
  rw [hfront] at hsplit hmark
  obtain ⟨m, others, rfl⟩ : ∃ m others, marks = m :: others := by
    rcases hmarks with rfl | rfl | rfl <;> exact ⟨_, _, rfl⟩
  exact ⟨m, others ++ c :: cs, rfl, hkind ▸ scan_marked hmark hc hrest hsplit⟩

end Lexeme

/-- A declared name is read as one rule name, where a definition may begin. -/
theorem TokenKind.rescans_rule {name : String} (h : IsDeclared name.toList) :
    Rescans (.rule name) := by
  obtain ⟨⟨pinned, visibility⟩, base, hname, hbase⟩ := h
  obtain ⟨c, rest, rfl⟩ : ∃ c rest, base = c :: rest :=
    List.exists_cons_of_ne_nil (by rintro rfl; contradiction)
  have hlower : c.isLower = true := (Bool.and_eq_true _ _ ▸ hbase).1
  have hne : c ≠ '_' := by
    rintro rfl
    contradiction
  have hvisible : Name.isRule (c :: rest) = true := by
    simpa [Name.isRule, Name.body, hne] using hbase
  have hinner : Name.isRule ('_' :: c :: rest) = true := hbase
  have hscan : ∃ d cs, name.toList = d :: cs ∧
      Lexeme.scan true d cs = ⟨.rule (String.ofList name.toList), name.toList, []⟩ := by
    rw [hname]
    cases pinned with
    | false =>
        cases visibility with
        | visible => exact Lexeme.exists_scan_of_isRule hvisible
        | inner => exact Lexeme.exists_scan_of_isRule hinner
        | conditional =>
            exact Lexeme.exists_scan_of_marks ['?'] (by simp) hvisible (by simpa using hne)
    | true =>
        cases visibility with
        | visible => exact Lexeme.exists_scan_of_marks ['!'] (by simp) hvisible (by simp)
        | inner => exact Lexeme.exists_scan_of_marks ['!'] (by simp) hinner (by simp)
        | conditional =>
            exact Lexeme.exists_scan_of_marks ['!', '?'] (by simp) hvisible (by simpa using hne)
  obtain ⟨d, cs, hcs, hscan⟩ := hscan
  rw [String.ofList_toList, hcs] at hscan
  exact ⟨d, cs, hcs, hscan⟩

/-! ### A definition of the word -/

namespace Token

/-- The tokens of a definition of the word: its name, the colon and the item. -/
theorem kinds_definition {name : String} (h : IsDeclared name.toList) :
    (significant (name ++ ": x")).map kind =
      [.rule name, .punctuation .colon, .rule "x", .endOfInput] := by
  obtain ⟨c, cs, hname, hscan⟩ := TokenKind.rescans_rule h
  have hname : name.toList = c :: cs := hname
  -- the colon ends the name
  have hends : (Lexeme.scan true c cs).EndsAt ':' := by
    refine ⟨by decide, Or.inr ?_⟩
    rw [hscan]
    rintro ⟨hopen, -⟩
    contradiction
  have hextend : Lexeme.scan true c (cs ++ [':', ' ', 'x']) =
      ⟨.rule name, c :: cs, [':', ' ', 'x']⟩ := by
    rw [Lexeme.scan_append hends, hscan]
    rfl
  have hrest : (Scan.ofSource (name ++ ": x")).rest = [] ++ c :: (cs ++ [':', ' ', 'x']) := by
    simp [Scan.ofSource, hname]
  have hblank : Text.isBlank c = false :=
    (TokenKind.rescans_rule h).isBlank_eq_false c (by simp [TokenKind.text, hname])
  have hstep := Scan.Step.lexeme hrest (by simp) hblank (by simp)
  have hopening : (Scan.ofSource (name ++ ": x")).opening = true := rfl
  rw [hopening, hextend] at hstep
  have hbehind (cursor : Text.Cursor) :
      (Scan.mk [':', ' ', 'x'] cursor false false).significant.map kind =
        [.punctuation .colon, .rule "x", .endOfInput] := by cbv
  have htokens := Scan.significant_of_step hstep (by simp [Scan.emit]) rfl
  change (Scan.ofSource (name ++ ": x")).significant.map kind = _
  rw [htokens, List.map_cons]
  exact congrArg (TokenKind.rule name :: ·) (hbehind _)

end Token

namespace Phrase

open Child (made)

/-- A name, a colon and an item are a text of one statement, which makes the name. -/
theorem exists_derives_word {n : ℕ} {name : String} {first colon item : Token}
    {r : TokenStream} (hfirst : first.kind = .rule name)
    (hcolon : colon.kind = .punctuation .colon) (hitem : item.kind = .rule "x") :
    ∃ tree, Derives .lines n (((r.cons item).cons colon).cons first) r [.tree tree] ∧
      made [.tree tree] = [⟨name, .rule⟩] := by
  have hname : first.kind.isRule = true := by rw [hfirst]; rfl
  have hvalue : item.kind.isValue = true := by rw [hitem]; rfl
  have hitems : Derives .items n (r.cons item) r [.token item] :=
    .items (.plain (.single (.token hvalue))) .noItem
  have halternatives : Derives (.alternatives true) n (r.cons item) r
      ([unnamedNode item.span [.token item]].map .tree) := .lastAlternative (.unnamed hitems)
  have hrule := Derives.rule hname .noParams .noPriority hcolon (.expansions halternatives)
  refine ⟨_, .lastLine (.defines hrule), ?_⟩
  rw [Child.made_rule hfirst]
  rfl

end Phrase

/-- A single event is the first of its name. -/
theorem Declaration.firstSeen_singleton (kind : Kind) (event : Declaration) :
    firstSeen kind [event] = if event.kind = kind then [event.spelling] else [] := by
  have hnew : event.spelling ∉ ([] : List Declaration).map spelling := List.not_mem_nil
  simpa [firstSeen] using firstSeen_append_of_notMem hnew

namespace Collected

/-- A definition of a declared name declares it, and nothing else. -/
theorem ofSource_definition {name : String} (h : IsDeclared name.toList) :
    ofSource (name ++ ": x") = .ok ⟨[name], []⟩ := by
  have hkinds := Token.kinds_definition h
  obtain ⟨first, tokens, hfirst, hkind, hkinds⟩ := List.map_eq_cons_iff.1 hkinds
  obtain ⟨colon, tokens, rfl, hcolon, hkinds⟩ := List.map_eq_cons_iff.1 hkinds
  obtain ⟨item, tokens, rfl, hitem, hkinds⟩ := List.map_eq_cons_iff.1 hkinds
  obtain ⟨last, rfl, hlast⟩ := List.map_eq_singleton_iff.1 hkinds
  have hstream : TokenStream.ofSource (name ++ ": x") =
      (((TokenStream.mk last []).cons item).cons colon).cons first := by
    rw [TokenStream.ofSource, hfirst]
    rfl
  obtain ⟨statement, hderives, hmade⟩ :=
    Phrase.exists_derives_word (n := Parse.maxNesting) (r := ⟨last, []⟩) hkind hcolon hitem
  rw [← hstream] at hderives
  have htree := Tree.ofSource_eq_ok_iff.2 ⟨[statement], _, rfl, hderives, hlast⟩
  obtain ⟨collector, hcollect, hgathers⟩ := Tree.collect_ofSource htree
  rw [Child.made_node rfl, List.map_singleton, hmade] at hgathers
  have hrules : collector.collected.ruleNames = [name] :=
    hgathers.ruleNames.trans (Declaration.firstSeen_singleton .rule _)
  have haliases : collector.collected.aliasNames = [] :=
    hgathers.aliasNames.trans (Declaration.firstSeen_singleton .aliased _)
  refine ofSource_eq_ok_iff.2 ⟨_, htree, hcollect.trans (congrArg Except.ok ?_)⟩
  rw [← hrules, ← haliases]

/-- What is declared in a text has the form of a declared name. -/
theorem isDeclared_of_mem_declarations {source : String} {collected : Collected}
    (h : ofSource source = .ok collected) {declaration : Declaration}
    (hdeclaration : declaration ∈ collected.declarations) :
    IsDeclared declaration.spelling.toList := by
  obtain ⟨tree, htree, hcollect⟩ := ofSource_eq_ok_iff.1 h
  obtain ⟨_, hcollect', hdeclared⟩ := Tree.exists_collect_eq_ok htree
  obtain rfl := Except.ok.inj (hcollect.symm.trans hcollect')
  exact hdeclared declaration hdeclaration

end Collected

/-! ### Taking words apart -/

namespace Declaration

variable {kind : Kind}

/-- A word of the form is taken apart into markers and a base name. -/
theorem exists_classify_of_isDeclared {word : String} (h : IsDeclared word.toList) (kind : Kind) :
    ∃ name, classify ⟨word, kind⟩ = .ok name ∧ name.kind = kind ∧
      name.baseName.toList ∈ Pattern.uniform Char.isLower := by
  obtain ⟨parts, hparts, hbase⟩ := h.exists_ofSpelling
  refine ⟨⟨parts.baseName, parts.markers, kind⟩, ?_, rfl, Pattern.mem_uniform hbase⟩
  rw [classify, hparts]
  rfl

/-- Any markers and any base name make a word of the form, which is taken apart into them. -/
theorem exists_word_of_name {name : ClassifiedName}
    (h : name.baseName.toList ∈ Pattern.uniform Char.isLower) :
    IsDeclared name.spelling.toList ∧ classify ⟨name.spelling, name.kind⟩ = .ok name := by
  have hbase := Pattern.mem_uniform_iff.1 h
  refine ⟨⟨name.markers, name.baseName.toList, ?_, hbase⟩, classify_eq_ok_iff.2 ⟨rfl, ?_⟩⟩
  · simp [ClassifiedName.spelling, Markers.text]
  · exact Decomposition.startsLower_of_isUniform hbase

/-- Taking words of the form apart is one to one, and every name with a base name in lower case is
an outcome. -/
theorem bijOn_classify (kind : Kind) :
    Set.BijOn (fun word => classify ⟨word, kind⟩) {word | word.toList ∈ Pattern.ruleName}
      (Except.ok '' {name | name.kind = kind ∧
        name.baseName.toList ∈ Pattern.uniform Char.isLower}) := by
  refine ⟨?_, ?_, ?_⟩
  · intro word hword
    obtain ⟨name, hname, hsuits⟩ :=
      exists_classify_of_isDeclared (Pattern.mem_ruleName_iff.1 hword) kind
    exact ⟨name, hsuits, hname.symm⟩
  · intro word hword other _ heq
    obtain ⟨name, hname, -⟩ :=
      exists_classify_of_isDeclared (Pattern.mem_ruleName_iff.1 hword) kind
    have hother : classify ⟨other, kind⟩ = .ok name := heq.symm.trans hname
    have hdeclaration := (classify_eq_ok_iff.1 hname).1.symm.trans (classify_eq_ok_iff.1 hother).1
    exact congrArg Declaration.spelling hdeclaration
  · rintro _ ⟨name, ⟨rfl, hbase⟩, rfl⟩
    obtain ⟨hdeclared, hclassify⟩ := exists_word_of_name hbase
    exact ⟨name.spelling, Pattern.mem_ruleName_iff.2 hdeclared, hclassify⟩

end Declaration

/-- **Both readings of markers go by one form.**  A definition declares a word, and nothing else,
exactly when the word has the form of a declared name.  On these words, taking apart is one to one:
its outcomes are the names that have a base name in lower case, behind any markers, and each of them
is written as the word that it comes from. -/
theorem Collected.declares_iff_mem_ruleName :
    (∀ word : String,
      ofSource (word ++ ": x") = .ok ⟨[word], []⟩ ↔ word.toList ∈ Pattern.ruleName) ∧
    (∀ kind : Declaration.Kind,
      Set.BijOn (fun word => Declaration.classify ⟨word, kind⟩)
        {word | word.toList ∈ Pattern.ruleName}
        (Except.ok '' {name | name.kind = kind ∧
          name.baseName.toList ∈ Pattern.uniform Char.isLower})) ∧
    ∀ (word : String) (kind : Declaration.Kind) (name : ClassifiedName),
      Declaration.classify ⟨word, kind⟩ = .ok name → name.markers.text ++ name.baseName = word := by
  refine ⟨fun word => ⟨fun h => ?_, fun h => ?_⟩, Declaration.bijOn_classify, ?_⟩
  · exact Pattern.mem_ruleName_iff.2 (isDeclared_of_mem_declarations h List.mem_cons_self)
  · exact ofSource_definition (Pattern.mem_ruleName_iff.1 h)
  · intro word kind name h
    exact congrArg Declaration.spelling (Declaration.classify_eq_ok_iff.1 h).1

end GrammarCatalog
