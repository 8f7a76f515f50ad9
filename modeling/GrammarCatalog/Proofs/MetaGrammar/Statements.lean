/-
**The parsers of statements.**

The parsers of definitions and directives recognize the derivations of statements, provided that
the end of a line or of the text stands behind.  A directive is looked up by its name first, so
what stands behind the directives is handled directive by directive.

Main definitions:

* `GrammarCatalog.Parse.behind` — what the directives do behind their names.

Main results:

* `GrammarCatalog.Parse.recognizes_definition` — definitions;
* `GrammarCatalog.Parse.recognizes_statement` — **statements**.
-/

import GrammarCatalog.Proofs.MetaGrammar.Bodies

set_option relaxedAutoImplicit false
set_option autoImplicit false

namespace GrammarCatalog.Parse

open Phrase (Derives)

variable {n : ℕ} {s m r : TokenStream}

/-- A token that does not end a statement goes on with it. -/
def extendsStatement (kind : TokenKind) : Bool := !kind.endsStatement

theorem extendsAlternatives_of_endsStatement {kind : TokenKind} (h : kind.endsStatement = true) :
    extendsAlternatives kind = false := by
  revert h
  cases kind <;> simp [TokenKind.endsStatement, extendsAlternatives, extendsAlternative,
    extendsItems, extendsItem, extendsValue, startsItem, TokenKind.isOperator]

theorem ne_punctuation_of_endsStatement {kind : TokenKind} (h : kind.endsStatement = true)
    (which : Punctuation) : kind ≠ .punctuation which := by
  rintro rfl
  simp [TokenKind.endsStatement] at h

/-! ### Names, parameters and priorities -/

/-- Lists of names are recognized if a name is taken exactly when it suits. -/
theorem recognizes_names {separator : Punctuation} {suits : TokenKind → Bool}
    {name : Parse TokenStream Token}
    (hsound : ∀ s r t, s.Terminated → name s = .accepted t r → suits t.kind = true ∧ s = r.cons t)
    (hcomplete : ∀ t r, suits t.kind = true → name (r.cons t) = .accepted t r) :
    (separated separator name).Recognizes
      (fun s r names => Derives (.names separator suits) n s r (names.map .token))
      (· == .punctuation separator) := by
  have hpasses : name.Passes := by
    intro s t r hs haccepted
    obtain ⟨-, rfl⟩ := hsound s r t hs haccepted
    exact List.suffix_cons _ _
  constructor
  · intro s r names hs haccepted
    refine separated_induction hpasses
      (motive := fun s names => Derives (.names separator suits) n s r (names.map .token))
      ?_ ?_ hs haccepted
    · intro s t hs hlast
      obtain ⟨ht, rfl⟩ := hsound s r t hs hlast
      exact .lastName ht
    · intro s t sign m names hs hfirst hsign ih
      obtain ⟨ht, rfl⟩ := hsound s (m.cons sign) t hs hfirst
      exact .name ht hsign ih
  · intro s r names hs hderives hr
    simp only [beq_eq_false_iff_ne] at hr
    induction names generalizing s with
    | nil => cases hderives
    | cons t names ih =>
        rw [List.map_cons] at hderives
        generalize hslots : names.map Child.token = slots at hderives
        cases hderives with
        | lastName ht =>
            obtain rfl := List.map_eq_nil_iff.1 hslots
            exact separated_of_last (hcomplete t r ht) hr
        | name ht hsign hnames =>
            subst hslots
            exact separated_of_round hpasses hs.of_cons hsign (hcomplete _ _ ht)
              (ih hs.of_cons.of_cons hnames)

theorem recognizes_ruleNames (separator : Punctuation) :
    (separated separator ruleName).Recognizes
      (fun s r names => Derives (.names separator TokenKind.isRule) n s r (names.map .token))
      (· == .punctuation separator) :=
  recognizes_names (fun _ _ _ => accepted_of_ruleName) fun _ _ => ruleName_cons

theorem recognizes_plainNames (separator : Punctuation) :
    (separated separator name).Recognizes
      (fun s r names => Derives (.names separator TokenKind.isName) n s r (names.map .token))
      (· == .punctuation separator) :=
  recognizes_names (fun _ _ _ => accepted_of_name) fun _ _ => name_cons

theorem recognizes_templateParams :
    templateParams.Recognizes (fun s r child => Derives .params n s r [child])
      (· == .punctuation .leftBrace) where
  sound {s r child} hs haccepted := by
    simp only [templateParams, bind_apply, kind_apply, andThen_accepted] at haccepted
    by_cases hopening : s.current.kind = .punctuation .leftBrace
    · obtain ⟨opening, s₁, rfl, hs₁⟩ := hs.exists_cons (by simp [hopening])
      rw [TokenStream.current_cons] at hopening
      simp only [hopening, TokenStream.current_cons, beq_self_eq_true, if_true,
        bind_eq_accepted_iff, take_apply, TokenStream.advance_cons, Outcome.accepted.injEq,
        pure_apply] at haccepted
      obtain ⟨_, _, ⟨rfl, rfl⟩, names, s₂, hnames, closing, s₃, hclosing, rfl, rfl⟩ := haccepted
      have hderives := (recognizes_ruleNames (n := n) .comma).sound hs₁ hnames
      obtain ⟨hkind, rfl⟩ := accepted_of_sign (hs₁.of_suffix hderives.suffix) hclosing
      exact .params hopening hderives hkind
    · simp only [beq_iff_eq, hopening, if_false, pure_apply, Outcome.accepted.injEq] at haccepted
      obtain ⟨rfl, rfl⟩ := haccepted
      exact .noParams
  complete {s r child} hs hderives hr := by
    cases hderives with
    | noParams => simp_all [templateParams]
    | @params _ opening closing s _ slots hopening hnames hclosing =>
        obtain ⟨names, rfl⟩ := hnames.exists_tokens
        have haccepted := (recognizes_ruleNames .comma).complete hs.of_cons hnames
          (by simp [hclosing])
        simp [templateParams, hopening, haccepted, sign_cons hclosing]

theorem recognizes_priority :
    priority.Recognizes (fun s r child => Derives .priority n s r [child])
      (· == .punctuation .dot) where
  sound {s r child} hs haccepted := by
    simp only [priority, bind_apply, kind_apply, andThen_accepted] at haccepted
    by_cases hdot : s.current.kind = .punctuation .dot
    · obtain ⟨dot, s₁, rfl, hs₁⟩ := hs.exists_cons (by simp [hdot])
      rw [TokenStream.current_cons] at hdot
      simp only [hdot, TokenStream.current_cons, beq_self_eq_true, if_true,
        bind_eq_accepted_iff, take_apply, TokenStream.advance_cons, Outcome.accepted.injEq,
        pure_apply] at haccepted
      obtain ⟨_, _, ⟨rfl, rfl⟩, count, s₂, hcount, rfl, rfl⟩ := haccepted
      obtain ⟨hnumber, rfl⟩ := accepted_of_number hs₁ hcount
      exact .priority hdot hnumber
    · simp only [beq_iff_eq, hdot, if_false, pure_apply, Outcome.accepted.injEq] at haccepted
      obtain ⟨rfl, rfl⟩ := haccepted
      exact .noPriority
  complete {s r child} hs hderives hr := by
    cases hderives with
    | noPriority => simp_all [priority]
    | priority hdot hnumber => simp [priority, hdot, number_cons hnumber]

/-! ### Definitions -/

theorem sound_rule {tree : Tree} (hs : s.Terminated) (hname : s.current.kind.isRule = true)
    (haccepted : rule s = .accepted tree r) :
    Derives .definition maxNesting s r [.tree tree] := by
  obtain ⟨name, s₁, rfl, hs₁⟩ := hs.exists_cons (by intro h; simp [h, TokenKind.isRule] at hname)
  rw [TokenStream.current_cons] at hname
  simp only [rule, bind_eq_accepted_iff, take_apply, TokenStream.current_cons,
    TokenStream.advance_cons, Outcome.accepted.injEq, pure_apply] at haccepted
  obtain ⟨_, _, ⟨rfl, rfl⟩, params, s₂, hparams, priority, s₃, hpriority, colon, s₄, hcolon, body,
    s₅, hbody, rfl, rfl⟩ := haccepted
  have hparams := (recognizes_templateParams (n := maxNesting)).sound hs₁ hparams
  have hs₂ := hs₁.of_suffix hparams.suffix
  have hpriority := (recognizes_priority (n := maxNesting)).sound hs₂ hpriority
  have hs₃ := hs₂.of_suffix hpriority.suffix
  obtain ⟨hkind, rfl⟩ := accepted_of_sign hs₃ hcolon
  exact .rule hname hparams hpriority hkind ((recognizes_expansions _ _).sound hs₃.of_cons hbody)

theorem sound_term {tree : Tree} (hs : s.Terminated) (hname : s.current.kind.isTerminal = true)
    (haccepted : term s = .accepted tree r) :
    Derives .definition maxNesting s r [.tree tree] := by
  obtain ⟨name, s₁, rfl, hs₁⟩ := hs.exists_cons (by
    intro h; simp [h, TokenKind.isTerminal] at hname)
  rw [TokenStream.current_cons] at hname
  simp only [term, bind_eq_accepted_iff, take_apply, TokenStream.current_cons,
    TokenStream.advance_cons, Outcome.accepted.injEq, pure_apply] at haccepted
  obtain ⟨_, _, ⟨rfl, rfl⟩, priority, s₂, hpriority, colon, s₃, hcolon, body, s₄, hbody, rfl,
    rfl⟩ := haccepted
  have hpriority := (recognizes_priority (n := maxNesting)).sound hs₁ hpriority
  have hs₂ := hs₁.of_suffix hpriority.suffix
  obtain ⟨hkind, rfl⟩ := accepted_of_sign hs₂ hcolon
  exact .term hname hpriority hkind ((recognizes_expansions _ _).sound hs₂.of_cons hbody)

/-- In front of a colon a priority is not a parameter list. -/
theorem ne_leftBrace_of_priority {colon : Token} {slots : List Child}
    (h : Derives .priority n s (r.cons colon) slots) (hcolon : colon.kind = .punctuation .colon) :
    s.current.kind ≠ .punctuation .leftBrace := by
  cases h with
  | noPriority => simp [hcolon]
  | priority hdot _ => simp [hdot]

/-- **Definitions are recognized.** -/
theorem recognizes_definition (expected : Expectation) :
    (definition expected).Recognizes
      (fun s r tree => Derives .definition maxNesting s r [.tree tree]) extendsStatement where
  sound {s r tree} hs haccepted := by
    simp only [definition, bind_apply, kind_apply, andThen_accepted] at haccepted
    cases hkind : s.current.kind with
    | rule name =>
        rw [hkind] at haccepted
        exact sound_rule hs (by simp [hkind, TokenKind.isRule]) haccepted
    | terminal name =>
        rw [hkind] at haccepted
        exact sound_term hs (by simp [hkind, TokenKind.isTerminal]) haccepted
    | _ =>
        rw [hkind] at haccepted
        exact absurd haccepted (unexpected_ne_accepted _ _ _)
  complete {s r tree} hs hderives hr := by
    have hends : extendsAlternatives r.current.kind = false :=
      extendsAlternatives_of_endsStatement (by simpa [extendsStatement] using hr)
    cases hderives with
    | @rule _ name colon s₁ s₂ s₃ _ params priority body hname hparams hpriority hcolon hbody =>
        have hs₁ := hs.of_cons
        have hs₂ := hs₁.of_suffix hparams.suffix
        have hs₃ := hs₂.of_suffix hpriority.suffix
        have hfirst := recognizes_templateParams.complete hs₁ hparams
          (by simpa using ne_leftBrace_of_priority hpriority hcolon)
        have hsecond := recognizes_priority.complete hs₂ hpriority (by simp [hcolon])
        have hthird := (recognizes_expansions _ _).complete hs₃.of_cons hbody hends
        cases hkind : name.kind with
        | rule text =>
            simp [definition, rule, hkind, hfirst, hsecond, sign_cons hcolon, hthird]
        | _ => simp [hkind, TokenKind.isRule] at hname
    | @term _ name colon s₁ s₂ _ priority body hname hpriority hcolon hbody =>
        have hs₁ := hs.of_cons
        have hs₂ := hs₁.of_suffix hpriority.suffix
        have hfirst := recognizes_priority.complete hs₁ hpriority (by simp [hcolon])
        have hsecond := (recognizes_expansions _ _).complete hs₂.of_cons hbody hends
        cases hkind : name.kind with
        | terminal text =>
            simp [definition, term, hkind, hfirst, sign_cons hcolon, hsecond]
        | _ => simp [hkind, TokenKind.isTerminal] at hname

/-! ### Directives -/

theorem recognizes_importPath :
    importPath.Recognizes (fun s r tree => Derives .path n s r [.tree tree])
      (· == .punctuation .dot) where
  sound {s r tree} hs haccepted := by
    simp only [importPath, bind_apply, current_apply, kind_apply, andThen_accepted] at haccepted
    by_cases hdot : s.current.kind = .punctuation .dot
    · obtain ⟨dot, s₁, rfl, hs₁⟩ := hs.exists_cons (by simp [hdot])
      rw [TokenStream.current_cons] at hdot
      rw [if_apply, if_pos (by simp [hdot])] at haccepted
      simp only [bind_eq_accepted_iff, take_apply, TokenStream.current_cons,
        TokenStream.advance_cons, pure_apply, Outcome.accepted.injEq] at haccepted
      obtain ⟨_, _, ⟨rfl, rfl⟩, _, _, ⟨rfl, rfl⟩, names, s₂, hnames, rfl, rfl⟩ := haccepted
      exact .relativePath hdot ((recognizes_plainNames .dot).sound hs₁ hnames)
    · rw [if_apply, if_neg (by simpa using hdot)] at haccepted
      simp only [bind_eq_accepted_iff, pure_apply, Outcome.accepted.injEq] at haccepted
      obtain ⟨_, _, ⟨rfl, rfl⟩, names, s₂, hnames, rfl, rfl⟩ := haccepted
      exact .path ((recognizes_plainNames .dot).sound hs hnames)
  complete {s r tree} hs hderives hr := by
    cases hderives with
    | @path _ _ _ names h =>
        have haccepted := (recognizes_plainNames .dot).complete hs h hr
        have hdot : s.current.kind ≠ .punctuation .dot := by
          intro hkind
          generalize names.map Child.token = slots at h
          cases h <;> simp_all [TokenKind.isName, TokenKind.isRule, TokenKind.isTerminal]
        simp [importPath, hdot, haccepted, Phrase.pathNode]
    | @relativePath _ dot s _ names hdot h =>
        have haccepted := (recognizes_plainNames .dot).complete hs.of_cons h hr
        simp [importPath, hdot, haccepted, Phrase.pathNode]

theorem sound_imported {directive : Token} {tree : Tree} (hs : s.Terminated)
    (hdirective : directive.kind.isDirective .importing = true)
    (haccepted : imported directive.span s = .accepted tree r) :
    Derives .statement n (s.cons directive) r [.tree tree] := by
  rw [imported, bind_eq_accepted_iff] at haccepted
  obtain ⟨path, m, hpath, haccepted⟩ := haccepted
  have hpath := (recognizes_importPath (n := n)).sound hs hpath
  have hm := hs.of_suffix hpath.suffix
  rw [bind_apply, kind_apply, andThen_accepted] at haccepted
  by_cases hopening : m.current.kind = .punctuation .leftParen
  · obtain ⟨opening, m₁, rfl, hm₁⟩ := hm.exists_cons (by simp [hopening])
    rw [TokenStream.current_cons] at hopening
    simp only [TokenStream.current_cons, hopening, bind_eq_accepted_iff, take_apply,
      TokenStream.advance_cons, pure_apply, Outcome.accepted.injEq] at haccepted
    obtain ⟨_, _, ⟨rfl, rfl⟩, names, m₂, hnames, closing, m₃, hclosing, rfl, rfl⟩ := haccepted
    have hnames := (recognizes_plainNames (n := n) .comma).sound hm₁ hnames
    obtain ⟨hkind, rfl⟩ := accepted_of_sign (hm₁.of_suffix hnames.suffix) hclosing
    exact .importNames hdirective hpath hopening hnames hkind
  · by_cases harrow : m.current.kind = .punctuation .arrow
    · obtain ⟨arrow, m₁, rfl, hm₁⟩ := hm.exists_cons (by simp [harrow])
      rw [TokenStream.current_cons] at harrow
      simp only [TokenStream.current_cons, harrow, bind_eq_accepted_iff, take_apply,
        TokenStream.advance_cons, pure_apply, Outcome.accepted.injEq] at haccepted
      obtain ⟨_, _, ⟨rfl, rfl⟩, target, m₂, htarget, rfl, rfl⟩ := haccepted
      obtain ⟨hname, rfl⟩ := accepted_of_name hm₁ htarget
      exact .importAs hdirective hpath harrow hname
    · have heq : Tree.node .importing [.tree path, .absent]
          (directive.span.merge path.span) = tree ∧ m = r := by
        cases hkind : m.current.kind with
        | punctuation sign => cases sign <;> simp_all
        | _ => simp_all
      obtain ⟨rfl, rfl⟩ := heq
      exact .importPath hdirective hpath

theorem extendsStatement_of_isName {kind : TokenKind} (h : kind.isName = true) :
    extendsStatement kind = true := by
  revert h
  cases kind <;> simp [TokenKind.isName, TokenKind.isRule, TokenKind.isTerminal, extendsStatement,
    TokenKind.endsStatement]

theorem consumes_name : Consumes extendsStatement name := by
  intro s t r hs _ haccepted
  obtain ⟨-, rfl⟩ := accepted_of_name hs haccepted
  exact ⟨[t], by simp, rfl⟩

/-- The names behind the first of a declaration are taken up to the end of the statement. -/
theorem sound_others {others : List Token} (hs : s.Terminated)
    (haccepted : many extendsStatement name s = .accepted others r) (first : Token)
    (hfirst : first.kind.isName = true) :
    Derives .declared n (s.cons first) r ((first :: others).map .token) := by
  refine many_induction consumes_name (motive := fun s others => ∀ first : Token,
    first.kind.isName = true → Derives .declared n (s.cons first) r
      ((first :: others).map .token)) ?_ ?_ hs haccepted first hfirst
  · intro _ first hfirst
    exact .lastDeclared hfirst
  · intro s second m others hs _ hsecond ih first hfirst
    obtain ⟨hname, rfl⟩ := accepted_of_name hs hsecond
    exact .declared hfirst (ih second hname)

theorem complete_others {first : Token} {others : List Token} (hs : s.Terminated)
    (h : Derives .declared n s r ((first :: others).map .token))
    (hr : extendsStatement r.current.kind = false) :
    ∃ m, s = m.cons first ∧ first.kind.isName = true ∧
      many extendsStatement name m = .accepted others r := by
  induction others generalizing s first with
  | nil =>
      cases h with
      | lastDeclared hname => exact ⟨r, rfl, hname, many_of_stop hr⟩
      | declared _ hnames => cases hnames
  | cons second others ih =>
      cases h with
      | declared hname hnames =>
          obtain ⟨m, rfl, hsecond, hothers⟩ := ih hs.of_cons hnames
          exact ⟨_, rfl, hname, many_of_round consumes_name hs.of_cons
            (extendsStatement_of_isName hsecond) (name_cons hsecond) hothers⟩

theorem declared_eq (start : Span) :
    (declared start : Parse TokenStream Tree) = do
      let first ← name
      let others ← many extendsStatement name
      return .node .declare ((first :: others).map .token)
        (start.merge (others.getLastD first).span) := rfl

theorem redefinition_eq_accepted_iff {node : NodeKind} {which : Directive} {start : Span}
    {tree : Tree} : redefinition node which start s = .accepted tree r ↔
      ∃ body, definition (.definitionAfter which.name) s = .accepted body r ∧
        tree = .node node [.tree body] (start.merge body.span) := by
  rw [redefinition, bind_eq_accepted_iff]
  constructor
  · rintro ⟨body, m, hbody, heq⟩
    simp only [pure_apply, Outcome.accepted.injEq] at heq
    obtain ⟨rfl, rfl⟩ := heq
    exact ⟨body, hbody, rfl⟩
  · rintro ⟨body, hbody, rfl⟩
    exact ⟨body, r, hbody, rfl⟩

/-- What the directives do behind their names. -/
def behind : Directive → Span → Parse TokenStream Tree
  | .ignore, start => do
      let body ← expansions maxNesting false
      return .node .ignore [.tree body] (start.merge body.span)
  | .importing, start => imported start
  | .declare, start => declared start
  | .override, start => redefinition .override .override start
  | .extend, start => redefinition .extend .extend start

theorem directive_cons {t : Token} (which : Directive) :
    directive which.name (s.cons t) = behind which t.span s := by
  rw [directive, Directive.ofName?_name]
  cases which <;> simp [behind]

theorem sound_behind {which : Directive} {t : Token} {tree : Tree} (hs : s.Terminated)
    (ht : t.kind.isDirective which = true) (haccepted : behind which t.span s = .accepted tree r) :
    Derives .statement maxNesting (s.cons t) r [.tree tree] := by
  cases which with
  | ignore =>
      simp only [behind, bind_eq_accepted_iff, pure_apply, Outcome.accepted.injEq] at haccepted
      obtain ⟨body, m, hbody, rfl, rfl⟩ := haccepted
      exact .ignore ht ((recognizes_expansions _ _).sound hs hbody)
  | importing => exact sound_imported hs ht haccepted
  | declare =>
      simp only [behind, declared_eq, bind_eq_accepted_iff, pure_apply,
        Outcome.accepted.injEq] at haccepted
      obtain ⟨first, m, hfirst, others, m', hothers, rfl, rfl⟩ := haccepted
      obtain ⟨hname, rfl⟩ := accepted_of_name hs hfirst
      exact .declare ht (sound_others hs.of_cons hothers first hname)
  | override =>
      obtain ⟨body, hbody, rfl⟩ := redefinition_eq_accepted_iff.1 haccepted
      exact .override ht ((recognizes_definition _).sound hs hbody)
  | extend =>
      obtain ⟨body, hbody, rfl⟩ := redefinition_eq_accepted_iff.1 haccepted
      exact .extend ht ((recognizes_definition _).sound hs hbody)

/-! ### Statements -/

theorem statement_cons {t : Token} {which : Directive} (ht : t.kind.isDirective which = true) :
    statement (s.cons t) = behind which t.span s := by
  have hkind : t.kind = .directive which.name := by simpa [TokenKind.isDirective] using ht
  simp only [statement, bind_apply, kind_apply, andThen_accepted, TokenStream.current_cons, hkind]
  exact directive_cons which

theorem isName_of_definition {slots : List Child} (h : Derives .definition n s r slots) :
    s.current.kind.isName = true := by
  cases h with
  | rule hname => simp [TokenKind.isName, hname]
  | term hname => simp [TokenKind.isName, hname]

theorem statement_of_isName (h : s.current.kind.isName = true) :
    statement s = definition .statement s := by
  simp only [statement, bind_apply, kind_apply, andThen_accepted]
  cases hkind : s.current.kind with
  | directive text => simp [hkind, TokenKind.isName, TokenKind.isRule, TokenKind.isTerminal] at h
  | _ => rfl

/-- **Statements are recognized.** -/
theorem recognizes_statement :
    statement.Recognizes (fun s r tree => Derives .statement maxNesting s r [.tree tree])
      extendsStatement where
  sound {s r tree} hs haccepted := by
    cases hkind : s.current.kind with
    | directive text =>
        obtain ⟨t, s₁, rfl, hs₁⟩ := hs.exists_cons (by simp [hkind])
        rw [TokenStream.current_cons] at hkind
        cases hwhich : Directive.ofName? text with
        | none =>
            simp [statement, hkind, directive, hwhich] at haccepted
        | some which =>
            obtain rfl := Directive.name_of_ofName? hwhich
            have ht : t.kind.isDirective which = true := by simp [TokenKind.isDirective, hkind]
            rw [statement_cons ht] at haccepted
            exact sound_behind hs₁ ht haccepted
    | _ =>
        simp only [statement, bind_apply, kind_apply, andThen_accepted, hkind] at haccepted
        exact .defines ((recognizes_definition _).sound hs haccepted)
  complete {s r tree} hs hderives hr := by
    have hends : r.current.kind.endsStatement = true := by simpa [extendsStatement] using hr
    cases hderives with
    | defines h =>
        rw [statement_of_isName (isName_of_definition h)]
        exact (recognizes_definition _).complete hs h hr
    | ignore hdirective hbody =>
        rw [statement_cons hdirective]
        have haccepted := (recognizes_expansions _ _).complete hs.of_cons hbody
          (extendsAlternatives_of_endsStatement hends)
        simp [behind, haccepted]
    | importPath hdirective hpath =>
        rw [statement_cons hdirective]
        have haccepted := recognizes_importPath.complete hs.of_cons hpath
          (by simpa using ne_punctuation_of_endsStatement hends .dot)
        cases hkind : r.current.kind with
        | newline => simp [behind, imported, haccepted, hkind]
        | endOfInput => simp [behind, imported, haccepted, hkind]
        | _ => simp [hkind, TokenKind.endsStatement] at hends
    | importAs hdirective hpath harrow htarget =>
        rw [statement_cons hdirective]
        have haccepted := recognizes_importPath.complete hs.of_cons hpath (by simp [harrow])
        simp [behind, imported, haccepted, harrow, name_cons htarget]
    | importNames hdirective hpath hopening hnames hclosing =>
        rw [statement_cons hdirective]
        have hs₁ := hs.of_cons
        have hfirst := recognizes_importPath.complete hs₁ hpath (by simp [hopening])
        obtain ⟨names, rfl⟩ := hnames.exists_tokens
        have hs₂ := (hs₁.of_suffix hpath.suffix).of_cons
        have hsecond := (recognizes_plainNames .comma).complete hs₂ hnames (by simp [hclosing])
        simp [behind, imported, hfirst, hopening, hsecond, sign_cons hclosing]
    | declare hdirective hnames =>
        rw [statement_cons hdirective]
        obtain ⟨m, rfl, hname, hothers⟩ := complete_others hs.of_cons hnames hr
        simp [behind, declared_eq, name_cons hname, hothers]
    | override hdirective hbody =>
        rw [statement_cons hdirective]
        exact redefinition_eq_accepted_iff.2
          ⟨_, (recognizes_definition _).complete hs.of_cons hbody hr, rfl⟩
    | extend hdirective hbody =>
        rw [statement_cons hdirective]
        exact redefinition_eq_accepted_iff.2
          ⟨_, (recognizes_definition _).complete hs.of_cons hbody hr, rfl⟩

end GrammarCatalog.Parse
