/-
**What a refusal leaves possible.**

Every parser keeps to the rule of the meta-grammar that it is for: up to the token it refuses, a
phrase could still have come out right.  There is one lemma for each parser, put together from those
of its parts; the nesting parsers are reached by induction on the number of levels that may still be
opened.

Main definitions:

* `GrammarCatalog.MetaGrammar.behind` — what may stand behind a directive.

Main results:

* `GrammarCatalog.MetaGrammar.newlines_mul_lines_le`, `GrammarCatalog.MetaGrammar.line_mul_lines_le`
  — lines go on behind line breaks and behind a line;
* `GrammarCatalog.Parse.keepsTo_value`, `GrammarCatalog.Parse.keepsTo_expansions` — the parsers
  that nest;
* `GrammarCatalog.Parse.keepsTo_statement` — statements;
* `GrammarCatalog.Parse.keepsTo_grammar` — **the parser of texts keeps to lines**.
-/

import GrammarCatalog.Proofs.MetaGrammar.Acceptance
import GrammarCatalog.Proofs.MetaGrammar.Prefixes

set_option relaxedAutoImplicit false
set_option autoImplicit false

namespace GrammarCatalog

namespace MetaGrammar

open scoped Computability

variable (n : ℕ)

/-! ### Languages of the grammar -/

theorem hasWord_expansions (aliases : Bool) : HasWord (expansions n aliases) := by
  have halternative (atom : Language TokenKind) : HasWord (alternative aliases atom) := by
    cases aliases <;> simp [alternative]
  rw [expansions_eq, alternatives, hasWord_listOf]
  exact halternative _

theorem hasWord_definition : HasWord (definition n) := by
  simp [definition, rule, params, priority, hasWord_expansions]

theorem hasWord_statement : HasWord (statement n) := by
  simp [statement, hasWord_definition]

theorem token_le_literal {suits : TokenKind → Bool}
    (h : suits = TokenKind.isString ∨ suits = TokenKind.isRegexp ∨
      suits = TokenKind.isTerminal ∨ suits = TokenKind.isRule) : token suits ≤ literal := by
  refine le_of_forall_mem fun word hword => ?_
  simp only [literal, Language.mem_add]
  rcases h with rfl | rfl | rfl | rfl <;> tauto

theorem range_le_literal :
    token TokenKind.isString * sign .dotDot * token TokenKind.isString ≤ literal := by
  refine le_of_forall_mem fun word hword => ?_
  simp only [literal, Language.mem_add]
  tauto

theorem sign_le_operator {which : Punctuation}
    (h : which = .question ∨ which = .star ∨ which = .plus) : sign which ≤ operator := by
  refine le_of_forall_mem fun word hword => ?_
  simp only [operator, Language.mem_add]
  rcases h with rfl | rfl | rfl <;> tauto

/-- What stands behind a directive. -/
def behind : Directive → Language TokenKind
  | .ignore => expansions n false
  | .importing => imported
  | .declare => token TokenKind.isName * (token TokenKind.isName)∗
  | .override | .extend => definition n

theorem directive_mul_behind_le (which : Directive) :
    directive which * behind n which ≤ statement n := by
  refine le_of_forall_mem fun word hword => ?_
  simp only [statement, add_mul, mul_assoc, Language.mem_add]
  cases which <;> rw [behind] at hword <;> tauto

theorem definition_le_statement : definition n ≤ statement n := by
  refine le_of_forall_mem fun word hword => ?_
  simp only [statement, Language.mem_add]
  tauto

/-- Line breaks in front of lines are lines. -/
theorem newlines_mul_lines_le : newline∗ * lines n ≤ lines n := by
  have hnewlines : newline∗ ≤ (newline + statement n * newline)∗ :=
    kstar_mono left_le_add
  calc newline∗ * lines n
      ≤ (newline + statement n * newline)∗ * lines n := mul_le_mul' hnewlines le_rfl
    _ = lines n := by rw [lines, ← mul_assoc, kstar_mul_kstar]

/-- A line in front of lines makes lines. -/
theorem line_mul_lines_le : statement n * newline * lines n ≤ lines n := by
  have hline : statement n * newline ≤ (newline + statement n * newline)∗ :=
    right_le_add.trans le_kstar
  calc statement n * newline * lines n
      ≤ (newline + statement n * newline)∗ * lines n := mul_le_mul' hline le_rfl
    _ = lines n := by rw [lines, ← mul_assoc, kstar_mul_kstar]

theorem line_mul_newlines_mul_lines_le :
    statement n * newline * newline∗ * lines n ≤ lines n :=
  calc statement n * newline * newline∗ * lines n
      = statement n * newline * (newline∗ * lines n) := mul_assoc _ _ _
    _ ≤ statement n * newline * lines n := mul_le_mul' le_rfl (newlines_mul_lines_le n)
    _ ≤ lines n := line_mul_lines_le n

theorem optional_statement_le_lines : optional (statement n) ≤ lines n := by
  calc optional (statement n)
      = 1 * optional (statement n) := (one_mul _).symm
    _ ≤ lines n := mul_le_mul' one_le_kstar le_rfl

theorem one_le_lines : 1 ≤ lines n :=
  one_le_optional.trans (optional_statement_le_lines n)

theorem statement_le_lines : statement n ≤ lines n :=
  le_optional.trans (optional_statement_le_lines n)

/-- A statement with its end and the line breaks behind it makes lines. -/
theorem statement_mul_newlines_le :
    statement n * (optional newline * newline∗) ≤ lines n := by
  have hnewlines : newline∗ ≤ lines n :=
    calc newline∗ = newline∗ * 1 := (mul_one _).symm
      _ ≤ newline∗ * lines n := mul_le_mul' le_rfl (one_le_lines n)
      _ ≤ lines n := newlines_mul_lines_le n
  have hline : statement n * (newline * newline∗) ≤ lines n :=
    calc statement n * (newline * newline∗)
        = statement n * newline * newline∗ := (mul_assoc _ _ _).symm
      _ ≤ statement n * newline * lines n := mul_le_mul' le_rfl hnewlines
      _ ≤ lines n := line_mul_lines_le n
  have hends : optional newline * newline∗ = 1 + newline * newline∗ := by
    rw [optional, add_mul, one_mul, add_eq_sup, sup_eq_left.2 mul_kstar_le_kstar]
    exact (Language.one_add_self_mul_kstar_eq_kstar _).symm
  rw [hends, mul_add, mul_one, add_eq_sup]
  exact sup_le (statement_le_lines n) hline

end MetaGrammar

namespace Parse

open scoped Computability
open MetaGrammar (Spells token literal listOf hasWord_one hasWord_sign hasWord_optional
  hasWord_expansions hasWord_definition left_le_add right_le_add one_le_optional le_optional
  token_le_literal range_le_literal sign_le_operator)

variable {language : Language TokenKind} {s : TokenStream}

/-! ### Values -/

theorem keepsTo_literalString (hs : s.Terminated) (h : s.current.kind.isString = true) :
    literalString.KeepsTo (token TokenKind.isString * MetaGrammar.optional
      (MetaGrammar.sign .dotDot * token TokenKind.isString)) s := by
  refine keepsTo_take_bind hs h rfl fun _ m hm _ => keepsTo_optional hm fun _ m hm => ?_
  refine keepsTo_kind_bind ?_
  split
  · rename_i hkind
    exact keepsTo_take_map hm (by rw [hkind]; rfl) rfl _
  · exact keepsTo_refuse _ MetaGrammar.hasWord_isString

theorem keepsTo_ruleReference {argument : Parse TokenStream Child}
    (h : ∀ s, s.Terminated → argument.KeepsTo language s) (hs : s.Terminated)
    (hkind : s.current.kind.isRule = true) :
    (ruleReference argument).KeepsTo (token TokenKind.isRule * MetaGrammar.optional
      (MetaGrammar.sign .leftBrace *
        (listOf .comma language * MetaGrammar.sign .rightBrace))) s := by
  refine keepsTo_take_bind hs hkind rfl fun _ m hm _ => keepsTo_optional hm fun _ m hm => ?_
  exact (keepsTo_separated h hm).bind (hasWord_sign _) hm fun _ m hm =>
    (keepsTo_sign _ hm).map hm _

/-- A value keeps to the literals, and to rules with whatever its arguments keep to. -/
theorem keepsTo_valueWith {argument : Parse TokenStream Child}
    (h : ∀ s, s.Terminated → argument.KeepsTo language s) (hs : s.Terminated) :
    (valueWith argument).KeepsTo (literal +
      token TokenKind.isRule * MetaGrammar.sign .leftBrace * listOf .comma language *
        MetaGrammar.sign .rightBrace) s := by
  have hmake {suits : TokenKind → Bool} (hkind : suits s.current.kind = true)
      (hend : suits .endOfInput = false) :
      KeepsTo (do return Child.token (← take)) (token suits) s := keepsTo_take_map hs hkind hend _
  refine keepsTo_kind_bind ?_
  split <;> rename_i hkind
  · refine (keepsTo_literalString hs (by rw [hkind]; rfl)).mono ?_
    rw [MetaGrammar.optional, mul_add, mul_one, ← mul_assoc, add_eq_sup]
    exact (sup_le (token_le_literal (by simp)) range_le_literal).trans left_le_add
  · exact (hmake (by rw [hkind]; rfl) rfl).mono
      ((token_le_literal (Or.inr (Or.inl rfl))).trans left_le_add)
  · exact (hmake (by rw [hkind]; rfl) rfl).mono
      ((token_le_literal (Or.inr (Or.inr (Or.inl rfl)))).trans left_le_add)
  · refine (keepsTo_ruleReference h hs (by rw [hkind]; rfl)).mono ?_
    rw [MetaGrammar.optional, mul_add, mul_one, mul_assoc, mul_assoc, add_eq_sup]
    exact sup_le ((token_le_literal (by simp)).trans left_le_add) right_le_add
  · exact keepsTo_unexpected _ (by simp [literal])

theorem keepsTo_value (n : ℕ) (hs : s.Terminated) : (value n).KeepsTo (MetaGrammar.value n) s := by
  induction n generalizing s with
  | zero =>
      -- no argument can be begun, since none may be opened
      have hargument (s : TokenStream) (_ : s.Terminated) :
          (tooDeep : Parse TokenStream Child).KeepsTo 0 s := keepsTo_tooDeep
      have hvalue := keepsTo_valueWith hargument hs
      rw [value_zero]
      simpa [listOf, MetaGrammar.value] using hvalue
  | succ n ih =>
      rw [value_succ]
      exact keepsTo_valueWith (fun _ hs => ih hs) hs

/-! ### Groups and items -/

theorem keepsTo_groupWith {body : Parse TokenStream Tree}
    (h : ∀ s, s.Terminated → body.KeepsTo language s) (hs : s.Terminated)
    (hkind : OpensGroup s.current.kind) :
    (groupWith body).KeepsTo (MetaGrammar.groupOf language) s := by
  rw [MetaGrammar.groupOf, mul_assoc, mul_assoc]
  rcases hkind with hkind | hkind
  · refine KeepsTo.mono (keepsTo_sign_bind hs hkind fun t m hm ht => ?_) left_le_add
    refine (h m hm).bind (hasWord_sign _) hm fun _ m hm => ?_
    rw [if_pos (by simp [ht])]
    exact (keepsTo_sign _ hm).map hm _
  · refine KeepsTo.mono (keepsTo_sign_bind hs hkind fun t m hm ht => ?_) right_le_add
    refine (h m hm).bind (hasWord_sign _) hm fun _ m hm => ?_
    rw [if_neg (by simp [ht])]
    exact (keepsTo_sign _ hm).map hm _

theorem keepsTo_repetition (operand : Child) (hs : s.Terminated)
    (hkind : s.current.kind = .punctuation .tilde) :
    (repetition operand).KeepsTo (MetaGrammar.sign .tilde * (token TokenKind.isNumber *
      MetaGrammar.optional (MetaGrammar.sign .dotDot * token TokenKind.isNumber))) s := by
  refine keepsTo_sign_bind hs hkind fun _ m hm _ => ?_
  refine (keepsTo_number hm).bind hasWord_optional hm fun _ m hm => ?_
  exact keepsTo_optional hm fun _ m hm => (keepsTo_number hm).map hm _

/-- An item keeps to operands with an operator or without. -/
theorem keepsTo_exprWith {atom : Parse TokenStream Child}
    (h : ∀ s, s.Terminated → atom.KeepsTo language s) (hs : s.Terminated) :
    (exprWith atom).KeepsTo (MetaGrammar.item language) s := by
  refine (h s hs).bind hasWord_optional hs fun operand m hm => keepsTo_kind_bind ?_
  have hmake {which : Punctuation} {make : Token → Child}
      (hkind : m.current.kind = .punctuation which) :
      KeepsTo (do return make (← take)) (MetaGrammar.sign which) m :=
    keepsTo_take_map hm (by simpa using hkind) rfl _
  split <;> rename_i hkind
  · exact (hmake hkind).mono ((sign_le_operator (by simp)).trans le_optional)
  · exact (hmake hkind).mono ((sign_le_operator (by simp)).trans le_optional)
  · exact (hmake hkind).mono ((sign_le_operator (by simp)).trans le_optional)
  · refine (keepsTo_repetition operand hm hkind).mono (le_trans ?_ le_optional)
    rw [MetaGrammar.operator, mul_assoc]
    exact right_le_add
  · exact (keepsTo_pure operand).mono one_le_optional

/-- Where a level may be opened, atoms keep to groups too. -/
theorem keepsTo_atomWith {group : Parse TokenStream Child} {n : ℕ}
    (h : ∀ s, s.Terminated → OpensGroup s.current.kind → group.KeepsTo language s)
    (hs : s.Terminated) :
    (atomWith group (value n)).KeepsTo (MetaGrammar.value n + language) s := by
  by_cases hkind : OpensGroup s.current.kind
  · exact ((h s hs hkind).mono right_le_add).congr (atomWith_of_opensGroup hkind)
  · exact ((keepsTo_value n hs).mono left_le_add).congr (atomWith_of_not_opensGroup hkind)

/-! ### Alternatives -/

theorem keepsTo_refuseMalformed : refuseMalformed.KeepsTo 1 s := by
  refine keepsTo_kind_bind ?_
  split
  · exact keepsTo_refuse _ hasWord_one
  · exact keepsTo_pure ()

theorem keepsTo_expansionWith {item : Parse TokenStream Child}
    (h : ∀ s, s.Terminated → item.KeepsTo language s) (hs : s.Terminated) :
    (expansionWith item).KeepsTo language∗ s := by
  rw [← mul_one language∗]
  refine keepsTo_current_bind ?_
  exact (keepsTo_many (fun s hs _ => h s hs) hs).bind hasWord_one hs fun _ m hm =>
    keepsTo_refuseMalformed.map hm _

theorem keepsTo_alternativeWith {aliases : Bool} {item : Parse TokenStream Child}
    (h : ∀ s, s.Terminated → item.KeepsTo (MetaGrammar.item language) s) (hs : s.Terminated) :
    (alternativeWith aliases item).KeepsTo (MetaGrammar.alternative aliases language) s := by
  cases aliases with
  | true =>
      refine (keepsTo_expansionWith h hs).bind hasWord_optional hs fun expansion m hm => ?_
      simp only [if_true]
      exact keepsTo_optional hm fun _ m hm => (keepsTo_ruleName hm).map hm _
  | false =>
      refine (keepsTo_expansionWith h hs).bind hasWord_one hs fun expansion m hm => ?_
      refine keepsTo_kind_bind ?_
      split
      · exact keepsTo_refuse _ hasWord_one
      · exact keepsTo_pure _

theorem keepsTo_expansionsWith {aliases : Bool} {atom : Parse TokenStream Child}
    (h : ∀ s, s.Terminated → atom.KeepsTo language s) (hs : s.Terminated) :
    (expansionsWith aliases (exprWith atom)).KeepsTo
      (MetaGrammar.alternatives aliases language) s := by
  refine (keepsTo_separated (fun s hs => ?_) hs).map hs _
  exact keepsTo_alternativeWith (fun s hs => keepsTo_exprWith h hs) hs

/-- **Alternatives keep to their language**, with groups and arguments nested in them to every
depth. -/
theorem keepsTo_expansions (n : ℕ) (aliases : Bool) (hs : s.Terminated) :
    (expansions n aliases).KeepsTo (MetaGrammar.expansions n aliases) s := by
  induction n generalizing aliases s with
  | zero =>
      rw [expansions_eq]
      refine keepsTo_expansionsWith (fun s hs => ?_) hs
      rw [← add_zero (MetaGrammar.value 0), group_zero]
      exact keepsTo_atomWith (fun _ _ _ => keepsTo_tooDeep) hs
  | succ n ih =>
      rw [expansions_eq]
      refine keepsTo_expansionsWith (fun s hs => ?_) hs
      rw [group_succ]
      exact keepsTo_atomWith (fun s hs hkind => keepsTo_groupWith (fun s hs => ih true hs) hs hkind)
        hs

/-! ### Definitions -/

theorem keepsTo_templateParams (hs : s.Terminated) :
    templateParams.KeepsTo MetaGrammar.params s := by
  rw [MetaGrammar.params, mul_assoc]
  refine keepsTo_optional hs fun _ m hm => ?_
  exact (keepsTo_separated (fun _ hs => keepsTo_ruleName hs) hm).bind (hasWord_sign _) hm
    fun _ m hm => (keepsTo_sign _ hm).map hm _

theorem keepsTo_priority (hs : s.Terminated) : priority.KeepsTo MetaGrammar.priority s :=
  keepsTo_optional hs fun _ _ hm => (keepsTo_number hm).map hm _

/-- The colon and the body of a definition. -/
theorem keepsTo_body {aliases : Bool} (hs : s.Terminated) (make : Tree → Tree) :
    KeepsTo (do
      let _ ← sign .colon
      return make (← expansions maxNesting aliases))
      (MetaGrammar.sign .colon * MetaGrammar.expansions maxNesting aliases) s :=
  (keepsTo_sign _ hs).bind (hasWord_expansions _ _) hs fun _ _ hm =>
    (keepsTo_expansions _ _ hm).map hm _

theorem keepsTo_rule (hs : s.Terminated) (hkind : s.current.kind.isRule = true) :
    rule.KeepsTo (MetaGrammar.rule maxNesting) s := by
  simp only [MetaGrammar.rule, mul_assoc]
  refine keepsTo_take_bind hs hkind rfl fun name m hm _ => ?_
  refine (keepsTo_templateParams hm).bind ?_ hm fun params m hm => ?_
  · simp [MetaGrammar.priority, hasWord_expansions]
  refine (keepsTo_priority hm).bind ?_ hm fun priority m hm => keepsTo_body hm _
  simp [hasWord_expansions]

theorem keepsTo_term (hs : s.Terminated) (hkind : s.current.kind.isTerminal = true) :
    term.KeepsTo (MetaGrammar.term maxNesting) s := by
  simp only [MetaGrammar.term, mul_assoc]
  refine keepsTo_take_bind hs hkind rfl fun name m hm _ => ?_
  refine (keepsTo_priority hm).bind ?_ hm fun priority m hm => keepsTo_body hm _
  simp [hasWord_expansions]

theorem keepsTo_definition (expected : Expectation) (hs : s.Terminated) :
    (definition expected).KeepsTo (MetaGrammar.definition maxNesting) s := by
  refine keepsTo_kind_bind ?_
  split <;> rename_i hkind
  · exact (keepsTo_rule hs (by rw [hkind]; rfl)).mono left_le_add
  · exact (keepsTo_term hs (by rw [hkind]; rfl)).mono right_le_add
  · exact keepsTo_unexpected _ (hasWord_definition _)

/-! ### Directives -/

theorem keepsTo_names {separator : Punctuation} (hs : s.Terminated) :
    (separated separator name).KeepsTo (listOf separator (token TokenKind.isName)) s :=
  keepsTo_separated (fun _ hs => keepsTo_name hs) hs

theorem keepsTo_importPath (hs : s.Terminated) : importPath.KeepsTo MetaGrammar.path s := by
  rw [MetaGrammar.path, MetaGrammar.optional, add_mul, one_mul]
  refine keepsTo_current_bind (keepsTo_kind_bind ?_)
  split <;> rename_i hkind
  · refine KeepsTo.mono ?_ right_le_add
    exact keepsTo_sign_bind hs (by simpa using hkind) fun _ m hm _ => (keepsTo_names hm).map hm _
  · exact ((keepsTo_names hs).map hs _).mono left_le_add

theorem keepsTo_imported (start : Span) (hs : s.Terminated) :
    (imported start).KeepsTo MetaGrammar.imported s := by
  rw [MetaGrammar.imported, mul_assoc, mul_assoc, ← mul_add]
  refine (keepsTo_importPath hs).bind (by simp) hs fun path m hm => keepsTo_kind_bind ?_
  split <;> rename_i hkind
  · refine KeepsTo.mono (keepsTo_sign_bind hm hkind fun _ m hm _ => ?_) right_le_add
    exact (keepsTo_names hm).bind (hasWord_sign _) hm fun _ m hm => (keepsTo_sign _ hm).map hm _
  · refine KeepsTo.mono (keepsTo_sign_bind hm hkind fun _ m hm _ => ?_)
      (le_optional.trans left_le_add)
    exact (keepsTo_name hm).map hm _
  · exact (keepsTo_pure _).mono (one_le_optional.trans left_le_add)

theorem keepsTo_declared (start : Span) (hs : s.Terminated) :
    (declared start).KeepsTo (token TokenKind.isName * (token TokenKind.isName)∗) s :=
  (keepsTo_name hs).bind MetaGrammar.hasWord_kstar hs fun _ _ hm =>
    (keepsTo_many (fun _ hs _ => keepsTo_name hs) hm).map hm _

theorem keepsTo_redefinition (node : NodeKind) (which : Directive) (start : Span)
    (hs : s.Terminated) :
    (redefinition node which start).KeepsTo (MetaGrammar.definition maxNesting) s :=
  (keepsTo_definition _ hs).map hs _

theorem keepsTo_behind (which : Directive) (start : Span) (hs : s.Terminated) :
    (behind which start).KeepsTo (MetaGrammar.behind maxNesting which) s := by
  cases which with
  | ignore => exact (keepsTo_expansions _ _ hs).map hs _
  | importing => exact keepsTo_imported start hs
  | declare => exact keepsTo_declared start hs
  | override => exact keepsTo_redefinition _ _ start hs
  | extend => exact keepsTo_redefinition _ _ start hs

/-- A directive keeps to the statements that begin with it. -/
theorem keepsTo_directive {text : String} (hs : s.Terminated)
    (hkind : s.current.kind = .directive text) :
    (directive text).KeepsTo (MetaGrammar.statement maxNesting) s := by
  obtain ⟨t, m, rfl, hm⟩ := hs.exists_cons (by simp [hkind])
  cases hwhich : Directive.ofName? text with
  | none =>
      unfold directive
      rw [hwhich]
      exact keepsTo_refuse _ (MetaGrammar.hasWord_statement _)
  | some which =>
      obtain rfl := Directive.name_of_ofName? hwhich
      have ht : t.kind.isDirective which = true := by simpa [TokenKind.isDirective] using hkind
      have hspells : Spells (MetaGrammar.directive which) (m.cons t) m :=
        MetaGrammar.spells_token.2 ⟨t, ht, rfl⟩
      exact ((keepsTo_behind which t.span hm).behind hspells (directive_cons which)).mono
        (MetaGrammar.directive_mul_behind_le _ which)

/-! ### Statements -/

/-- **Statements keep to their language.** -/
theorem keepsTo_statement (hs : s.Terminated) :
    statement.KeepsTo (MetaGrammar.statement maxNesting) s := by
  refine keepsTo_kind_bind ?_
  split <;> rename_i hkind
  · exact keepsTo_directive hs hkind
  · exact (keepsTo_definition _ hs).mono (MetaGrammar.definition_le_statement _)

/-! ### Texts -/

theorem keepsTo_endOfStatement (hs : s.Terminated) :
    endOfStatement.KeepsTo (MetaGrammar.optional MetaGrammar.newline) s := by
  refine keepsTo_kind_bind ?_
  split <;> rename_i hkind
  · exact (keepsTo_take_map hs (by simp [hkind]) rfl _).mono le_optional
  · exact (keepsTo_pure ()).mono one_le_optional
  · exact keepsTo_unexpected _ (by simp)

theorem keepsTo_blankLines (hs : s.Terminated) : blankLines.KeepsTo MetaGrammar.newline∗ s := by
  refine (keepsTo_many (fun s hs hkind => ?_) hs).map hs _
  have htake : take.KeepsTo MetaGrammar.newline s := keepsTo_take_map hs hkind rfl id
  exact htake

theorem keepsTo_terminatedStatement (hs : s.Terminated) :
    terminatedStatement.KeepsTo (MetaGrammar.statement maxNesting *
      (MetaGrammar.optional MetaGrammar.newline * MetaGrammar.newline∗)) s := by
  refine (keepsTo_statement hs).bind (by simp) hs fun tree m hm => ?_
  exact (keepsTo_endOfStatement hm).bind MetaGrammar.hasWord_kstar hm fun _ m hm =>
    (keepsTo_blankLines hm).map hm _

/-- Behind the end of a statement other lines follow, unless it is the end of the text. -/
theorem keepsTo_statements (bound : List Token) (hs : s.Terminated) :
    (manyWithin (· != .endOfInput) terminatedStatement bound).KeepsTo
      (MetaGrammar.lines maxNesting) s := by
  induction bound generalizing s with
  | nil => exact (keepsTo_pure []).mono (MetaGrammar.one_le_lines _)
  | cons _ bound ih =>
      change KeepsTo (if s.current.kind != .endOfInput then _ else pure []) _ s
      split
      · have hends := MetaGrammar.statement_mul_newlines_le maxNesting
        refine (keepsTo_terminatedStatement hs).andThen (fun r hr => hr.mono hends) ?_
        intro tree m hfirst
        obtain ⟨m', hstatement, ⟨hkind, rfl⟩ | ⟨newline, m', rfl, hnewline, hblank⟩⟩ :=
          sound_terminatedStatement hs hfirst
        · -- at the end of the text no statement is left
          have hstop : manyWithin (· != .endOfInput) terminatedStatement bound m' =
              .accepted [] m' := by
            cases bound <;> simp [manyWithin, hkind]
          refine KeepsTo.mono ((keepsTo_pure [tree]).behind hstatement.spells ?_) ?_
          · rw [bind_apply, hfirst, andThen_accepted, bind_apply, hstop]
            rfl
          · rw [mul_one]
            exact MetaGrammar.statement_le_lines _
        · have hm' := (hs.of_suffix hstatement.suffix).of_cons
          have hbreak : Spells MetaGrammar.newline (m'.cons newline) m' :=
            MetaGrammar.spells_token.2 ⟨newline, by simp [hnewline], rfl⟩
          have hbreaks := (keepsTo_blankLines hm').spells hblank
          have hspells := (hstatement.spells.mul hbreak).mul hbreaks
          have hm := hbreaks.terminated hm'
          refine KeepsTo.mono (((ih hm).map hm (List.cons tree)).behind hspells ?_)
            (MetaGrammar.line_mul_newlines_mul_lines_le _)
          rw [bind_apply, hfirst]
          rfl
      · exact (keepsTo_pure []).mono (MetaGrammar.one_le_lines _)

/-- **The parser of texts keeps to lines.** -/
theorem keepsTo_grammar (length : ℕ) (hs : s.Terminated) :
    (grammar length).KeepsTo (MetaGrammar.lines maxNesting) s := by
  refine KeepsTo.mono ?_ (MetaGrammar.newlines_mul_lines_le _)
  refine (keepsTo_blankLines hs).bind ⟨[], MetaGrammar.one_le_lines _ Language.nil_mem_one⟩ hs
    fun _ m hm => ?_
  exact (keepsTo_statements _ hm).map hm _

end Parse

end GrammarCatalog
