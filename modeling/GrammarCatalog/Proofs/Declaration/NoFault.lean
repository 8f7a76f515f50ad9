/-
**No text leads to a fault.**

Reading a text, collecting what it declares and taking the names apart either succeeds or ends
with a parse error.  A place is never inside a character, a node never has the wrong shape, and a
spelling that was collected can always be taken apart.

Main results:

* `GrammarCatalog.Refusal.toFailure_of_mem` — a refusal at a token of a text is a parse error;
* `GrammarCatalog.Tree.exists_rejected_of_error` — a text without a tree has a parse error;
* `GrammarCatalog.Tree.exists_collect_eq_ok` — the tree of a text is collected from;
* `GrammarCatalog.Collected.exists_select_eq_ok` — names are selected if they can be taken apart;
* `GrammarCatalog.ruleNames_no_fault` — **no text leads to a fault**.
-/

import GrammarCatalog.Declaration.Selection
import GrammarCatalog.Proofs.Declaration.Spellings
import GrammarCatalog.Proofs.Token.Positions
import GrammarCatalog.Proofs.Tree.Declarations
import GrammarCatalog.Proofs.Tree.Refusals

set_option relaxedAutoImplicit false
set_option autoImplicit false

namespace GrammarCatalog

/-! ### Tokens -/

namespace Token

variable {source : String} {token : Token}

/-- A token that stands in a text covers a part of it. -/
theorem StandsIn.isSome_text? (h : token.StandsIn source.toList) :
    (token.span.text? source).isSome = true := by
  obtain ⟨before, text, after, hsource, hspan⟩ := h
  have hslice : Text.slice? token.span.start token.span.stop source.toList = some text := by
    refine Text.slice?_eq_some_iff.2 ⟨before, after, hsource, ?_, ?_⟩
    · simp [hspan, Text.Cursor.spanOf, Text.Cursor.origin]
    · simp [hspan, Text.Cursor.spanOf, Text.Cursor.origin]
  simp [Span.text?, hslice]

/-- The line of a token that stands in a text. -/
theorem lineText?_eq {before text after : List Char}
    (hsource : before ++ (text ++ after) = source.toList)
    (hspan : token.span = (Text.Cursor.origin.advance before).spanOf text) :
    token.span.lineText? source =
      some (String.ofList (Text.lineAround before (text ++ after))) := by
  have hstart : token.span.start = Text.byteLength before := by
    simp [hspan, Text.Cursor.spanOf, Text.Cursor.origin]
  have hle : Text.byteLength before ≤ Text.byteLength source.toList := by
    rw [← hsource, Text.byteLength_append]
    exact Nat.le_add_right _ _
  have hcut : Text.cut? (min token.span.start (Text.byteLength source.toList)) source.toList =
      some (before, text ++ after) := by
    rw [hstart, Nat.min_eq_left hle]
    exact Text.cut?_eq_some_iff.2 ⟨hsource, rfl⟩
  rw [Span.lineText?, hcut]
  rfl

/-- A token that stands in a text stands on a line of it. -/
theorem StandsIn.isSome_lineText? (h : token.StandsIn source.toList) :
    (token.span.lineText? source).isSome = true := by
  obtain ⟨before, text, after, hsource, hspan⟩ := h
  rw [lineText?_eq hsource hspan]
  rfl

end Token

/-! ### Trees -/

/-- The token where reading stops is one of the text. -/
theorem current_mem_significant {source : String} {rest : TokenStream}
    (h : rest.toList <:+ (TokenStream.ofSource source).toList) :
    rest.current ∈ Token.significant source := by
  rw [← TokenStream.toList_ofSource]
  exact h.subset List.mem_cons_self

/-- The failure of a refusal is a parse error: the refused token stands on a line of the text. -/
theorem Refusal.toFailure_of_mem {source : String} {token : Token} (reason : Refusal)
    (h : token ∈ Token.significant source) :
    ∃ lineText, token.span.lineText? source = some lineText ∧
      reason.toFailure token.span source =
        .rejected ⟨reason.message, token.span.line, token.span.column, lineText⟩ := by
  have hstands := Token.standsIn_of_mem (List.mem_filter.1 h).1
  obtain ⟨lineText, hline⟩ := Option.isSome_iff_exists.1 hstands.isSome_lineText?
  exact ⟨lineText, hline, by rw [toFailure, hline]⟩

namespace Tree

variable {source : String}

/-- A text without a tree has a parse error. -/
theorem exists_rejected_of_error {failure : Failure} (h : ofSource source = .error failure) :
    ∃ error, failure = .rejected error := by
  rw [ofSource_eq, ofTokens] at h
  have hstays := Parse.stays_grammar (Text.byteLength source.toList) (TokenStream.ofSource source)
  cases houtcome : Parse.grammar (Text.byteLength source.toList)
      (TokenStream.ofSource source) with
  | accepted tree rest => simp [houtcome] at h
  | refused reason rest =>
      rw [houtcome] at h hstays
      obtain rfl : reason.toFailure rest.current.span source = failure := by simpa using h
      obtain ⟨line, -, hfailure⟩ := reason.toFailure_of_mem (current_mem_significant hstays)
      exact ⟨_, hfailure⟩

end Tree

/-! ### Collecting and selecting -/

namespace Collector

theorem mem_declarations_push {collected : Collected} {declaration other : Declaration} :
    other ∈ (collected.push declaration).declarations ↔
      other = declaration ∨ other ∈ collected.declarations := by
  obtain ⟨spelling, kind⟩ := declaration
  cases kind with
  | rule =>
      simp only [Collected.push, Collected.declarations, Collected.rules, Collected.aliases,
        List.map_append, List.mem_append, List.map_cons, List.map_nil, List.mem_singleton]
      tauto
  | aliased =>
      simp only [Collected.push, Collected.declarations, Collected.rules, Collected.aliases,
        List.map_append, List.mem_append, List.map_cons, List.map_nil, List.mem_singleton]
      tauto

/-- What was recorded is the declaration, or was there before. -/
theorem mem_declarations_record {collector : Collector} {declaration other : Declaration}
    (h : other ∈ (collector.record declaration).2.collected.declarations) :
    other = declaration ∨ other ∈ collector.collected.declarations := by
  by_cases hseen : declaration.spelling ∈ collector.seen
  · rw [record_of_mem hseen] at h
    exact Or.inr h
  · rw [record_of_notMem hseen] at h
    exact mem_declarations_push.1 h

/-- Nodes that declare suitable names are visited without a fault. -/
theorem exists_visitEach_eq (suits : String → Prop) {nodes : List Tree}
    (hnodes : ∀ node ∈ nodes, ∃ declaration, node.declaration? = .ok declaration ∧
      ∀ other ∈ declaration, suits other.spelling) {collector : Collector}
    (hcollector : ∀ other ∈ collector.collected.declarations, suits other.spelling) :
    ∃ after, collector.visitEach nodes = (after, none) ∧
      ∀ other ∈ after.collected.declarations, suits other.spelling := by
  induction nodes generalizing collector with
  | nil => exact ⟨collector, rfl, hcollector⟩
  | cons node nodes ih =>
      obtain ⟨declaration, hdeclaration, hsuits⟩ := hnodes node List.mem_cons_self
      have hnodes := fun other hother => hnodes other (List.mem_cons_of_mem _ hother)
      cases declaration with
      | none =>
          rw [visitEach, visit, hdeclaration]
          exact ih hnodes hcollector
      | some declaration =>
          rw [visitEach, visit, hdeclaration]
          refine ih hnodes ?_
          intro other hother
          rcases mem_declarations_record hother with rfl | hother
          · exact hsuits other rfl
          · exact hcollector other hother

end Collector

/-- The tree of a text is collected from, and what is collected are declared names. -/
theorem Tree.exists_collect_eq_ok {source : String} {tree : Tree}
    (h : ofSource source = .ok tree) :
    ∃ collected, tree.collect = .ok collected ∧
      ∀ declaration ∈ collected.declarations,
        Decomposition.IsDeclared declaration.spelling.toList := by
  have hnodes : ∀ node ∈ tree.topdown, ∃ declaration, node.declaration? = .ok declaration ∧
      ∀ other ∈ declaration, Decomposition.IsDeclared other.spelling.toList := by
    intro node hnode
    obtain ⟨declaration, hdeclaration, htokens⟩ := exists_declaration_of_mem_topdown h hnode
    refine ⟨declaration, hdeclaration, ?_⟩
    intro other hother
    obtain ⟨token, htoken, hkind⟩ := htokens other hother
    exact Token.isDeclared_of_mem htoken hkind
  have hempty : ∀ other ∈ (Collector.mk [] {}).collected.declarations,
      Decomposition.IsDeclared other.spelling.toList := by
    simp [Collected.declarations, Collected.rules, Collected.aliases]
  obtain ⟨after, hafter, hdeclared⟩ := Collector.exists_visitEach_eq
    (fun spelling => Decomposition.IsDeclared spelling.toList) hnodes hempty
  exact ⟨after.collected, by rw [collect, Collector.visitAll, hafter], hdeclared⟩

namespace Collected

variable {collected : Collected}

theorem mem_declarations_of_mem_candidates {policy : Policy} {declaration : Declaration}
    (h : declaration ∈ collected.candidates policy) : declaration ∈ collected.declarations := by
  unfold candidates at h
  rcases List.mem_append.1 h with h | h
  · exact List.mem_append_left _ h
  · split at h
    · exact List.mem_append_right _ h
    · simp at h

/-- Declared names are taken apart. -/
theorem exists_classify_eq_ok {declarations : List Declaration}
    (h : ∀ declaration ∈ declarations, Decomposition.IsDeclared declaration.spelling.toList) :
    ∃ names, declarations.mapM Declaration.classify = .ok names ∧
      ∀ name ∈ names, Name.isUniform Char.isLower name.baseName.toList = true := by
  induction declarations with
  | nil => exact ⟨[], rfl, by simp⟩
  | cons declaration declarations ih =>
      obtain ⟨names, hnames, huniform⟩ :=
        ih fun other hother => h other (List.mem_cons_of_mem _ hother)
      obtain ⟨decomposition, hdecomposition, hbase⟩ :=
        (h declaration List.mem_cons_self).exists_ofSpelling
      refine ⟨⟨decomposition.baseName, decomposition.markers, declaration.kind⟩ :: names, ?_, ?_⟩
      · rw [List.mapM_cons, hnames, Declaration.classify, hdecomposition]
        rfl
      · simpa using ⟨hbase, huniform⟩

/-- Names are selected from declared names. -/
theorem exists_select_eq_ok (policy : Policy)
    (h : ∀ declaration ∈ collected.declarations,
      Decomposition.IsDeclared declaration.spelling.toList) :
    ∃ names, collected.select policy = .ok names ∧
      ∀ name ∈ names, Name.isUniform Char.isLower name.baseName.toList = true := by
  obtain ⟨names, hnames, huniform⟩ := exists_classify_eq_ok
    fun declaration hdeclaration => h declaration (mem_declarations_of_mem_candidates hdeclaration)
  refine ⟨names.filter policy.admits, by rw [select, hnames]; rfl, ?_⟩
  intro name hname
  exact huniform name (List.mem_filter.1 hname).1

end Collected

/-- **No text leads to a fault**: names are listed or the text is rejected, tokens cover parts and
stand on lines of the text, scans begin between its characters, and the counters of all its places
fit into 32 bits if the text is short enough. -/
theorem ruleNames_no_fault (source : String) (policy : Policy) :
    ((∃ error, Collected.ofSource source = .error (.rejected error) ∧
        ruleNames source policy = .error (.rejected error)) ∨
      ∃ collected names, Collected.ofSource source = .ok collected ∧
        collected.select policy = .ok names ∧
        ruleNames source policy = .ok (names.map ClassifiedName.baseName) ∧
        ∀ name ∈ names, Name.isUniform Char.isLower name.baseName.toList = true) ∧
    (∀ token ∈ Token.ofSource source,
      (token.span.text? source).isSome = true ∧ (token.span.lineText? source).isSome = true) ∧
    (∀ count, ∃ before, before ++ (Scan.reached source count).rest = source.toList ∧
      (Scan.reached source count).cursor = Text.Cursor.origin.advance before ∧
      (Scan.reached source count).cursor.offset = Text.byteLength before) ∧
    (Text.byteLength source.toList < 2 ^ 32 - 1 → ∀ before, before <+: source.toList →
      (Text.Cursor.origin.advance before).line < 2 ^ 32 ∧
      (Text.Cursor.origin.advance before).column < 2 ^ 32) := by
  refine ⟨?_, ?_, ?_, fun hlength before => Text.Cursor.counters_lt_of_prefix hlength⟩
  · cases htree : Tree.ofSource source with
    | error failure =>
        obtain ⟨error, rfl⟩ := Tree.exists_rejected_of_error htree
        have hsource : Collected.ofSource source = .error (.rejected error) := by
          rw [Collected.ofSource, htree]
          rfl
        exact Or.inl ⟨error, hsource, by rw [ruleNames, hsource]; rfl⟩
    | ok tree =>
        obtain ⟨collected, hcollected, hdeclared⟩ := Tree.exists_collect_eq_ok htree
        obtain ⟨names, hnames, huniform⟩ := Collected.exists_select_eq_ok policy hdeclared
        have hsource : Collected.ofSource source = .ok collected := by
          rw [Collected.ofSource, htree]
          change tree.collect.mapError Failure.broken = .ok collected
          rw [hcollected]
          rfl
        refine Or.inr ⟨collected, names, hsource, hnames, ?_, huniform⟩
        rw [ruleNames, hsource]
        change (collected.baseNames policy).mapError Failure.broken = _
        rw [Collected.baseNames, hnames]
        rfl
  · intro token htoken
    have hstands := Token.standsIn_of_mem htoken
    exact ⟨hstands.isSome_text?, hstands.isSome_lineText?⟩
  · intro count
    obtain ⟨before, hbefore, hcursor⟩ := Scan.standsIn_reached source count
    exact ⟨before, hbefore, hcursor, by simp [hcursor, Text.Cursor.origin]⟩

end GrammarCatalog
