/-
**The parsers of values, groups and alternatives.**

Each parser of what can stand in the body of a definition recognizes the derivations of its phrase.
A parser is built from those of its parts, so there is one lemma for each of them, which assumes
the parts to recognize theirs; the two that nest are then settled by induction on the number of
levels that may still be opened.

Main definitions:

* `GrammarCatalog.Parse.extendsValue`, `GrammarCatalog.Parse.extendsAlternatives` — the tokens that
  would go on with a value, or with alternatives.

Main results:

* `GrammarCatalog.Parse.recognizes_value` — values;
* `GrammarCatalog.Parse.recognizes_expansions` — **alternatives**, with all that is nested in them.
-/

import GrammarCatalog.Proofs.MetaGrammar.Recognition
import GrammarCatalog.Proofs.MetaGrammar.Words

set_option relaxedAutoImplicit false
set_option autoImplicit false

namespace GrammarCatalog

/-- Past a token that is not the end of the text. -/
theorem TokenStream.Terminated.exists_cons {s : TokenStream} (hs : s.Terminated)
    (hkind : s.current.kind ≠ .endOfInput) : ∃ t m, s = TokenStream.cons t m ∧ m.Terminated :=
  ⟨s.current, s.advance, hs.eq_cons hkind, hs.advance⟩

namespace Parse

open Phrase (Derives)

variable {n : ℕ} {s r : TokenStream}

/-! ### What would go on -/

/-- The tokens that go on with a string or a name. -/
def extendsValue : TokenKind → Bool
  | .punctuation .dotDot | .punctuation .leftBrace => true
  | _ => false

/-- The tokens that go on with arguments. -/
def extendsArguments (kind : TokenKind) : Bool := extendsValue kind || kind == .punctuation .comma

/-- The tokens that go on with an item. -/
def extendsItem (kind : TokenKind) : Bool :=
  extendsValue kind || kind.isOperator || kind == .punctuation .tilde

/-- The tokens that go on with a sequence of items, or that are refused behind one. -/
def extendsItems : TokenKind → Bool
  | .malformed _ => true
  | kind => extendsItem kind || startsItem kind

/-- The tokens that go on with one alternative. -/
def extendsAlternative (kind : TokenKind) : Bool :=
  extendsItems kind || kind == .punctuation .arrow

/-- The tokens that go on with alternatives. -/
def extendsAlternatives (kind : TokenKind) : Bool :=
  extendsAlternative kind || kind == .punctuation .pipe

/-- A token that begins an item does not go on with the item before. -/
theorem extendsItem_of_startsItem {kind : TokenKind} (h : startsItem kind = true) :
    extendsItem kind = false := by
  revert h
  cases kind with
  | punctuation sign => cases sign <;> decide
  | _ => simp [startsItem, extendsItem, extendsValue, TokenKind.isOperator]

/-! ### Values -/

/-- A string is taken alone, or with two dots and another one. -/
theorem sound_literalString {child : Child} (hs : s.Terminated)
    (hlow : s.current.kind.isString = true) (h : literalString s = .accepted child r) :
    Derives .value n s r [child] := by
  obtain ⟨low, s₁, rfl, hs₁⟩ := hs.exists_cons (by intro h; simp [h, TokenKind.isString] at hlow)
  simp only [literalString, bind_apply, take_apply, kind_apply, andThen_accepted,
    TokenStream.current_cons, TokenStream.advance_cons] at h hlow
  by_cases hdots : s₁.current.kind = .punctuation .dotDot
  · obtain ⟨dots, s₂, rfl, hs₂⟩ := hs₁.exists_cons (by simp [hdots])
    simp only [hdots, beq_self_eq_true, if_true, bind_apply, take_apply, kind_apply,
      andThen_accepted, TokenStream.advance_cons] at h
    cases hhigh : s₂.current.kind with
    | string text ignoreCase =>
        obtain ⟨high, s₃, rfl, hs₃⟩ := hs₂.exists_cons (by simp [hhigh])
        rw [TokenStream.current_cons] at hhigh
        simp only [hhigh, bind_apply, take_apply, andThen_accepted, pure_apply,
          TokenStream.current_cons, TokenStream.advance_cons, Outcome.accepted.injEq] at h
        obtain ⟨rfl, rfl⟩ := h
        exact .range hlow hdots (by simp [hhigh, TokenKind.isString])
    | _ => simp [hhigh] at h
  · simp only [beq_iff_eq, hdots, if_false, pure_apply, Outcome.accepted.injEq] at h
    obtain ⟨rfl, rfl⟩ := h
    exact .token (by simp [TokenKind.isValue, hlow])

/-- A rule name is taken alone, or with arguments in braces. -/
theorem sound_ruleReference {argument : Parse TokenStream Child} {child : Child}
    (harguments : ∀ s r children, s.Terminated →
      separated .comma argument s = .accepted children r →
      ∃ m, n = m + 1 ∧ Derives .arguments m s r children)
    (hs : s.Terminated) (hname : s.current.kind.isRule = true)
    (h : ruleReference argument s = .accepted child r) : Derives .value n s r [child] := by
  obtain ⟨name, s₁, rfl, hs₁⟩ := hs.exists_cons (by intro h; simp [h, TokenKind.isRule] at hname)
  simp only [ruleReference, bind_apply, take_apply, kind_apply, andThen_accepted,
    TokenStream.current_cons, TokenStream.advance_cons] at h hname
  by_cases hopening : s₁.current.kind = .punctuation .leftBrace
  · obtain ⟨opening, s₂, rfl, hs₂⟩ := hs₁.exists_cons (by simp [hopening])
    simp only [hopening, beq_self_eq_true, if_true, bind_eq_accepted_iff, take_apply,
      TokenStream.advance_cons, Outcome.accepted.injEq, pure_apply] at h
    obtain ⟨_, _, ⟨-, rfl⟩, children, s₃, hchildren, closing, s₄, hclosing, rfl, rfl⟩ := h
    obtain ⟨m, rfl, hchildren⟩ := harguments s₂ s₃ children hs₂ hchildren
    obtain ⟨hkind, rfl⟩ := accepted_of_sign (hs₂.of_suffix hchildren.suffix) hclosing
    exact .usage hname hopening hchildren hkind
  · simp only [beq_iff_eq, hopening, if_false, pure_apply, Outcome.accepted.injEq] at h
    obtain ⟨rfl, rfl⟩ := h
    exact .token (by simp [TokenKind.isValue, TokenKind.isName, hname])

/-- What is derived as a value is accepted by the parser of values, unless it is extended. -/
theorem complete_valueWith {argument : Parse TokenStream Child} {child : Child}
    (harguments : ∀ m s r children, n = m + 1 → s.Terminated → Derives .arguments m s r children →
      extendsArguments r.current.kind = false →
      separated .comma argument s = .accepted children r)
    (hs : s.Terminated) (h : Derives .value n s r [child])
    (hr : extendsValue r.current.kind = false) : valueWith argument s = .accepted child r := by
  have hdots : r.current.kind ≠ .punctuation .dotDot := by
    intro hkind; rw [hkind] at hr; contradiction
  have hbrace : r.current.kind ≠ .punctuation .leftBrace := by
    intro hkind; rw [hkind] at hr; contradiction
  cases h with
  | @token _ t _ ht =>
      cases hkind : t.kind with
      | string text ignoreCase => simp [valueWith, literalString, hkind, hdots]
      | regexp pattern flags => simp [valueWith, hkind]
      | terminal name => simp [valueWith, hkind]
      | rule name => simp [valueWith, ruleReference, hkind, hbrace]
      | _ => simp [hkind, TokenKind.isValue, TokenKind.isString, TokenKind.isRegexp,
          TokenKind.isName, TokenKind.isRule, TokenKind.isTerminal] at ht
  | @range _ low dots high _ hlow hkind hhigh =>
      cases hlow' : low.kind with
      | string text ignoreCase =>
          cases hhigh' : high.kind with
          | string text ignoreCase => simp [valueWith, literalString, hlow', hkind, hhigh']
          | _ => simp [hhigh', TokenKind.isString] at hhigh
      | _ => simp [hlow', TokenKind.isString] at hlow
  | @usage m name opening closing s _ children hname hopening hchildren hclosing =>
      have hs : s.Terminated := hs.of_cons.of_cons
      have haccepted := harguments m s (r.cons closing) children rfl hs hchildren
        (by simp [hclosing, extendsArguments, extendsValue])
      cases hname' : name.kind with
      | rule text =>
          simp [valueWith, ruleReference, hname', hopening, haccepted, sign_cons hclosing]
      | _ => simp [hname', TokenKind.isRule] at hname

/-- Arguments are recognized if the values of their depth are. -/
theorem recognizes_arguments
    (h : (value n).Recognizes (fun s r child => Derives .value n s r [child]) extendsValue) :
    (separated .comma (value n)).Recognizes
      (fun s r children => Derives .arguments n s r children) extendsArguments where
  sound {s r children} hs haccepted := by
    have hpasses := h.passes fun _ _ _ hvalue => hvalue.suffix
    refine separated_induction hpasses
      (motive := fun s children => Derives .arguments n s r children) ?_ ?_ hs haccepted
    · intro s child hs hlast
      exact .lastArgument (h.sound hs hlast)
    · intro s child t m children hs hfirst ht ih
      exact .argument (h.sound hs hfirst) ht ih
  complete {s r children} hs hderives hr := by
    have hpasses := h.passes fun _ _ _ hvalue => hvalue.suffix
    simp only [extendsArguments, Bool.or_eq_false_iff, beq_eq_false_iff_ne] at hr
    induction children generalizing s with
    | nil => cases hderives
    | cons child children ih =>
        cases hderives with
        | lastArgument hvalue => exact separated_of_last (h.complete hs hvalue hr.1) hr.2
        | argument hvalue hcomma harguments =>
            have hm := hs.of_suffix hvalue.suffix
            have hfirst := h.complete hs hvalue (by simp [hcomma, extendsValue])
            exact separated_of_round hpasses hm hcomma hfirst (ih hm.of_cons harguments)

/-- **Values are recognized** at every depth. -/
theorem recognizes_value (n : ℕ) :
    (value n).Recognizes (fun s r child => Derives .value n s r [child]) extendsValue := by
  -- the parser of values, given what is known of the parser of their arguments
  have step {argument : Parse TokenStream Child} {n : ℕ}
      (hsound : ∀ s r children, s.Terminated →
        separated .comma argument s = .accepted children r →
        ∃ m, n = m + 1 ∧ Derives .arguments m s r children)
      (hcomplete : ∀ m s r children, n = m + 1 → s.Terminated →
        Derives .arguments m s r children → extendsArguments r.current.kind = false →
        separated .comma argument s = .accepted children r) :
      (valueWith argument).Recognizes (fun s r child => Derives .value n s r [child])
        extendsValue := by
    refine ⟨?_, complete_valueWith hcomplete⟩
    intro s r child hs h
    simp only [valueWith, bind_apply, kind_apply, andThen_accepted] at h
    cases hkind : s.current.kind with
    | string text ignoreCase =>
        rw [hkind] at h
        exact sound_literalString hs (by simp [hkind, TokenKind.isString]) h
    | rule name =>
        rw [hkind] at h
        exact sound_ruleReference hsound hs (by simp [hkind, TokenKind.isRule]) h
    | regexp pattern flags =>
        obtain ⟨t, m, rfl, hm⟩ := hs.exists_cons (by simp [hkind])
        rw [TokenStream.current_cons] at hkind
        simp [hkind] at h
        obtain ⟨rfl, rfl⟩ := h
        exact .token (by simp [hkind, TokenKind.isValue, TokenKind.isRegexp])
    | terminal name =>
        obtain ⟨t, m, rfl, hm⟩ := hs.exists_cons (by simp [hkind])
        rw [TokenStream.current_cons] at hkind
        simp [hkind] at h
        obtain ⟨rfl, rfl⟩ := h
        exact .token (by simp [hkind, TokenKind.isValue, TokenKind.isName, TokenKind.isTerminal])
    | _ =>
        rw [hkind] at h
        exact absurd h (unexpected_ne_accepted _ _ _)
  induction n with
  | zero =>
      rw [value_zero]
      refine step ?_ ?_
      · intro s r children hs h
        simp [separated, tooDeep] at h
      · intro m s r children h
        omega
  | succ n ih =>
      have harguments := recognizes_arguments ih
      rw [value_succ]
      refine step ?_ ?_
      · intro s r children hs h
        exact ⟨n, rfl, harguments.sound hs h⟩
      · intro m s r children h
        obtain rfl : n = m := by omega
        exact harguments.complete

/-! ### Groups and items -/

/-- A group is derived if its body is. -/
theorem sound_groupWith {body : Parse TokenStream Tree} {child : Child}
    (hbody : ∀ s r tree, s.Terminated → body s = .accepted tree r →
      Derives (.expansions true) n s r [.tree tree])
    (hs : s.Terminated)
    (hopening : s.current.kind = .punctuation .leftParen ∨
      s.current.kind = .punctuation .leftBracket)
    (h : groupWith body s = .accepted child r) : Derives .atom (n + 1) s r [child] := by
  obtain ⟨opening, s₁, rfl, hs₁⟩ := hs.exists_cons (by rcases hopening with h | h <;> simp [h])
  rw [TokenStream.current_cons] at hopening
  rw [groupWith, bind_apply, take_apply, andThen_accepted, TokenStream.current_cons,
    TokenStream.advance_cons, bind_eq_accepted_iff] at h
  obtain ⟨alternatives, s₂, halternatives, h⟩ := h
  have hderives := hbody s₁ s₂ alternatives hs₁ halternatives
  have hs₂ := hs₁.of_suffix hderives.suffix
  rcases hopening with hopening | hopening
  · simp only [hopening, beq_self_eq_true, if_true, bind_eq_accepted_iff, pure_apply,
      Outcome.accepted.injEq] at h
    obtain ⟨closing, s₃, hclosing, rfl, rfl⟩ := h
    obtain ⟨hkind, rfl⟩ := accepted_of_sign hs₂ hclosing
    exact .parens hopening hderives hkind
  · simp only [hopening, reduceCtorEq, beq_iff_eq, TokenKind.punctuation.injEq, if_false,
      bind_eq_accepted_iff, pure_apply, Outcome.accepted.injEq] at h
    obtain ⟨closing, s₃, hclosing, rfl, rfl⟩ := h
    obtain ⟨hkind, rfl⟩ := accepted_of_sign hs₂ hclosing
    exact .brackets hopening hderives hkind

/-- The signs that open a group. -/
def OpensGroup (kind : TokenKind) : Prop :=
  kind = .punctuation .leftParen ∨ kind = .punctuation .leftBracket

theorem atomWith_of_opensGroup {group atom : Parse TokenStream Child}
    (h : OpensGroup s.current.kind) :
    atomWith group atom s = group s := by
  rcases h with h | h <;> simp [atomWith, h]

theorem atomWith_of_not_opensGroup {group atom : Parse TokenStream Child}
    (h : ¬OpensGroup s.current.kind) :
    atomWith group atom s = atom s := by
  simp only [atomWith, bind_apply, kind_apply, andThen_accepted]
  cases hkind : s.current.kind with
  | punctuation sign =>
      cases sign with
      | leftParen => exact absurd (Or.inl hkind) h
      | leftBracket => exact absurd (Or.inr hkind) h
      | _ => rfl
  | _ => rfl

/-- No value begins with the sign of a group. -/
theorem not_opensGroup_of_value {slots : List Child} (h : Derives .value n s r slots) :
    ¬OpensGroup s.current.kind := by
  rintro (hkind | hkind) <;> cases h <;>
    simp_all [TokenKind.isValue, TokenKind.isString, TokenKind.isRegexp, TokenKind.isName,
      TokenKind.isRule, TokenKind.isTerminal]

/-- Atoms are recognized if groups are. -/
theorem recognizes_atomWith {group : Parse TokenStream Child}
    (hsound : ∀ s r child, s.Terminated → OpensGroup s.current.kind →
      group s = .accepted child r → Derives .atom n s r [child])
    (hcomplete : ∀ s r child, s.Terminated → OpensGroup s.current.kind →
      Derives .atom n s r [child] → group s = .accepted child r) :
    (atomWith group (value n)).Recognizes (fun s r child => Derives .atom n s r [child])
      extendsValue where
  sound {s r child} hs haccepted := by
    by_cases hopens : OpensGroup s.current.kind
    · rw [atomWith_of_opensGroup hopens] at haccepted
      exact hsound s r child hs hopens haccepted
    · rw [atomWith_of_not_opensGroup hopens] at haccepted
      exact .single ((recognizes_value n).sound hs haccepted)
  complete {s r child} hs hderives hr := by
    by_cases hopens : OpensGroup s.current.kind
    · rw [atomWith_of_opensGroup hopens]
      exact hcomplete s r child hs hopens hderives
    · rw [atomWith_of_not_opensGroup hopens]
      cases hderives with
      | single hvalue => exact (recognizes_value n).complete hs hvalue hr
      | parens hopening _ _ => exact absurd (Or.inl hopening) hopens
      | brackets hopening _ _ => exact absurd (Or.inr hopening) hopens

/-- Where no level may be opened, the atoms are the values. -/
theorem recognizes_atom_zero :
    (atomWith (group 0) (value 0)).Recognizes (fun s r child => Derives .atom 0 s r [child])
      extendsValue := by
  refine recognizes_atomWith ?_ ?_
  · intro s r child hs hopens h
    simp [group, tooDeep] at h
  · intro s r child hs hopens h
    cases h with
    | single hvalue => exact absurd hopens (not_opensGroup_of_value hvalue)

/-- Atoms are recognized if the alternatives one level deeper are. -/
theorem recognizes_atom_succ
    (hbody : (expansions n true).Recognizes
      (fun s r tree => Derives (.expansions true) n s r [.tree tree]) extendsAlternatives) :
    (atomWith (group (n + 1)) (value (n + 1))).Recognizes
      (fun s r child => Derives .atom (n + 1) s r [child]) extendsValue := by
  refine recognizes_atomWith ?_ ?_
  · intro s r child hs hopens h
    rw [group_succ] at h
    exact sound_groupWith (fun _ _ _ hs h => hbody.sound hs h) hs hopens h
  · intro s r child hs hopens h
    cases h with
    | single hvalue => exact absurd hopens (not_opensGroup_of_value hvalue)
    | parens hopening hderives hclosing =>
        have haccepted := hbody.complete hs.of_cons hderives (by simp [hclosing]; decide)
        simp [group, groupWith, hopening, haccepted, sign_cons hclosing]
    | brackets hopening hderives hclosing =>
        have haccepted := hbody.complete hs.of_cons hderives (by simp [hclosing]; decide)
        simp [group, groupWith, hopening, haccepted, sign_cons hclosing]

/-- What becomes of an operand: it is taken with its operator, if one stands behind it. -/
theorem exprWith_apply {atom : Parse TokenStream Child} {m : TokenStream} {operand : Child}
    (h : atom s = .accepted operand m) :
    exprWith atom s =
      if m.current.kind.isOperator = true then
        .accepted (.tree (.node .expr [operand, .token m.current]
          (operand.span.merge m.current.span))) m.advance
      else if m.current.kind = .punctuation .tilde then repetition operand m
      else .accepted operand m := by
  simp only [exprWith, bind_apply, h, kind_apply, andThen_accepted]
  cases hkind : m.current.kind with
  | punctuation sign => cases sign <;> simp [TokenKind.isOperator]
  | _ => simp [TokenKind.isOperator]

/-- A count is one number, or two with dots between them. -/
theorem sound_repetition {m : TokenStream} {operand child : Child} (hm : m.Terminated)
    (htilde : m.current.kind = .punctuation .tilde)
    (h : repetition operand m = .accepted child r) (hoperand : Derives .atom n s m [operand]) :
    Derives .item n s r [child] := by
  obtain ⟨tilde, m₁, rfl, hm₁⟩ := hm.exists_cons (by simp [htilde])
  rw [TokenStream.current_cons] at htilde
  rw [repetition, bind_apply, take_apply, andThen_accepted, TokenStream.advance_cons,
    bind_eq_accepted_iff] at h
  obtain ⟨count, m₂, hcount, h⟩ := h
  obtain ⟨hnumber, rfl⟩ := accepted_of_number hm₁ hcount
  have hm₂ := hm₁.of_cons
  simp only [bind_apply, kind_apply, andThen_accepted] at h
  by_cases hdots : m₂.current.kind = .punctuation .dotDot
  · obtain ⟨dots, m₃, rfl, hm₃⟩ := hm₂.exists_cons (by simp [hdots])
    rw [TokenStream.current_cons] at hdots
    simp only [hdots, TokenStream.current_cons, beq_self_eq_true, if_true, bind_apply, take_apply,
      andThen_accepted, TokenStream.advance_cons] at h
    rw [← bind_apply, bind_eq_accepted_iff] at h
    obtain ⟨upper, m₄, hupper, h⟩ := h
    obtain ⟨hnumber', rfl⟩ := accepted_of_number hm₃ hupper
    simp only [pure_apply, Outcome.accepted.injEq] at h
    obtain ⟨rfl, rfl⟩ := h
    exact .countedUpTo hoperand htilde hnumber hdots hnumber'
  · simp only [beq_iff_eq, hdots, if_false, pure_apply, Outcome.accepted.injEq] at h
    obtain ⟨rfl, rfl⟩ := h
    have hcounted := Derives.counted hoperand htilde hnumber
    rwa [Phrase.countNode, Child.merge_span_absent] at hcounted

/-- Items are recognized if atoms are. -/
theorem recognizes_exprWith {atom : Parse TokenStream Child}
    (hatom : atom.Recognizes (fun s r child => Derives .atom n s r [child]) extendsValue) :
    (exprWith atom).Recognizes (fun s r child => Derives .item n s r [child]) extendsItem where
  sound {s r child} hs haccepted := by
    have h := haccepted
    rw [exprWith, bind_eq_accepted_iff] at h
    obtain ⟨operand, m, hoperand, -⟩ := h
    have hderives := hatom.sound hs hoperand
    have hm := hs.of_suffix hderives.suffix
    rw [exprWith_apply hoperand] at haccepted
    by_cases hoperator : m.current.kind.isOperator = true
    · obtain ⟨operator, m, rfl, hm⟩ := hm.exists_cons (by
        intro hkind; simp [hkind, TokenKind.isOperator] at hoperator)
      simp only [hoperator, if_true, Outcome.accepted.injEq] at haccepted
      obtain ⟨rfl, rfl⟩ := haccepted
      exact .operated hderives hoperator
    · by_cases htilde : m.current.kind = .punctuation .tilde
      · rw [if_neg hoperator, if_pos htilde] at haccepted
        exact sound_repetition hm htilde haccepted hderives
      · rw [if_neg hoperator, if_neg htilde] at haccepted
        cases haccepted
        exact .plain hderives
  complete {s r child} hs hderives hr := by
    simp only [extendsItem, Bool.or_eq_false_iff, beq_eq_false_iff_ne] at hr
    have hdots : r.current.kind ≠ .punctuation .dotDot := by
      intro hkind; simp [hkind, extendsValue] at hr
    cases hderives with
    | plain h =>
        rw [exprWith_apply (hatom.complete hs h hr.1.1), if_neg (by simp [hr.1.2]), if_neg hr.2]
    | @operated _ _ _ operand operator h hoperator =>
        have hextends : extendsValue operator.kind = false := by
          unfold TokenKind.isOperator at hoperator
          split at hoperator <;> simp_all [extendsValue]
        rw [exprWith_apply (hatom.complete hs h hextends), TokenStream.current_cons,
          if_pos hoperator, TokenStream.advance_cons]
    | @counted _ _ _ operand tilde count h htilde hcount =>
        rw [exprWith_apply (hatom.complete hs h (by simp [htilde, extendsValue])),
          TokenStream.current_cons, if_neg (by simp [htilde, TokenKind.isOperator]),
          if_pos htilde, Phrase.countNode, Child.merge_span_absent]
        simp [repetition, number_cons hcount, hdots]
    | @countedUpTo _ _ _ operand tilde count dots upper h htilde hcount hkind hupper =>
        rw [exprWith_apply (hatom.complete hs h (by simp [htilde, extendsValue])),
          TokenStream.current_cons, if_neg (by simp [htilde, TokenKind.isOperator]),
          if_pos htilde]
        simp [repetition, number_cons hcount, hkind, number_cons hupper, Phrase.countNode,
          Child.span]

/-! ### Alternatives -/

/-- The parser of items takes a token whenever it accepts. -/
theorem consumes_item {item : Parse TokenStream Child}
    (hitem : item.Recognizes (fun s r child => Derives .item n s r [child]) extendsItem) :
    item.Consumes startsItem := by
  intro s child r hs _ haccepted
  exact (hitem.sound hs haccepted).exists_taken Nat.one_pos

/-- Sequences of items are recognized if items are. -/
theorem recognizes_items {item : Parse TokenStream Child}
    (hitem : item.Recognizes (fun s r child => Derives .item n s r [child]) extendsItem) :
    (many startsItem item).Recognizes (fun s r items => Derives .items n s r items)
      extendsItems where
  sound {s r items} hs haccepted := by
    refine many_induction (consumes_item hitem)
      (motive := fun s items => Derives .items n s r items) ?_ ?_ hs haccepted
    · intro _
      exact .noItem
    · intro s child m items hs _ hfirst ih
      exact .items (hitem.sound hs hfirst) ih
  complete {s r items} hs hderives hr := by
    have hends : startsItem r.current.kind = false ∧ extendsItem r.current.kind = false := by
      revert hr
      cases r.current.kind <;> simp [extendsItems, startsItem, extendsItem, extendsValue,
        TokenKind.isOperator, and_comm]
    induction items generalizing s with
    | nil =>
        cases hderives with
        | noItem => exact many_of_stop hends.1
    | cons child items ih =>
        cases hderives with
        | @items _ _ m _ _ _ h hitems =>
            have hm := hs.of_suffix h.suffix
            -- behind the first item stands another one, or what stands behind all of them
            have hnext : extendsItem m.current.kind = false := by
              cases hitems with
              | noItem => exact hends.2
              | items hsecond _ => exact extendsItem_of_startsItem hsecond.startsItem_of_item
            exact many_of_round (consumes_item hitem) hs h.startsItem_of_item
              (hitem.complete hs h hnext) (ih hm hitems)

/-- The items of one alternative make its node, which starts where the alternative does. -/
theorem recognizes_expansionWith {item : Parse TokenStream Child}
    (hitem : item.Recognizes (fun s r child => Derives .item n s r [child]) extendsItem) :
    (expansionWith item).Recognizes
      (fun s r tree => ∃ items, tree = Phrase.itemsNode s.current.span items ∧
        Derives .items n s r items) extendsItems where
  sound {s r tree} hs haccepted := by
    rw [expansionWith, bind_apply, current_apply, andThen_accepted, bind_eq_accepted_iff]
      at haccepted
    obtain ⟨items, m, hitems, haccepted⟩ := haccepted
    simp only [refuseMalformed, bind_apply, kind_apply, andThen_accepted] at haccepted
    cases hkind : m.current.kind with
    | malformed cause => simp [hkind] at haccepted
    | _ =>
        simp only [hkind, pure_apply, andThen_accepted, Outcome.accepted.injEq] at haccepted
        obtain ⟨rfl, rfl⟩ := haccepted
        exact ⟨items, rfl, (recognizes_items hitem).sound hs hitems⟩
  complete {s r tree} hs hderives hr := by
    obtain ⟨items, rfl, hitems⟩ := hderives
    have haccepted := (recognizes_items hitem).complete hs hitems hr
    have hmalformed : (refuseMalformed : Parse TokenStream Unit) r = .accepted () r := by
      cases hkind : r.current.kind with
      | malformed cause => simp [hkind, extendsItems] at hr
      | _ => simp [refuseMalformed, hkind]
    simp [expansionWith, haccepted, hmalformed, Phrase.itemsNode]

/-- One alternative is recognized if items are. -/
theorem recognizes_alternativeWith (aliases : Bool) {item : Parse TokenStream Child}
    (hitem : item.Recognizes (fun s r child => Derives .item n s r [child]) extendsItem) :
    (alternativeWith aliases item).Recognizes
      (fun s r tree => Derives (.alternative aliases) n s r [.tree tree]) extendsAlternative where
  sound {s r tree} hs haccepted := by
    rw [alternativeWith, bind_eq_accepted_iff] at haccepted
    obtain ⟨expansion, m, hexpansion, haccepted⟩ := haccepted
    obtain ⟨items, rfl, hitems⟩ := (recognizes_expansionWith hitem).sound hs hexpansion
    have hm := hs.of_suffix hitems.suffix
    simp only [bind_apply, kind_apply, andThen_accepted] at haccepted
    by_cases harrow : m.current.kind = .punctuation .arrow
    · obtain ⟨arrow, m, rfl, hm⟩ := hm.exists_cons (by simp [harrow])
      rw [TokenStream.current_cons] at harrow
      cases aliases with
      | false => simp [harrow] at haccepted
      | true =>
          simp only [TokenStream.current_cons, harrow, beq_self_eq_true, if_true, bind_apply,
            take_apply, andThen_accepted, TokenStream.advance_cons] at haccepted
          rw [← bind_apply, bind_eq_accepted_iff] at haccepted
          obtain ⟨target, m', htarget, haccepted⟩ := haccepted
          simp only [pure_apply, Outcome.accepted.injEq] at haccepted
          obtain ⟨rfl, rfl⟩ := haccepted
          obtain ⟨hrule, rfl⟩ := accepted_of_ruleName ‹_› htarget
          exact .named hitems harrow hrule
    · simp only [beq_iff_eq, harrow, if_false, pure_apply, Outcome.accepted.injEq] at haccepted
      obtain ⟨rfl, rfl⟩ := haccepted
      exact .unnamed hitems
  complete {s r tree} hs hderives hr := by
    simp only [extendsAlternative, Bool.or_eq_false_iff, beq_eq_false_iff_ne] at hr
    have hexpansion := recognizes_expansionWith hitem
    cases hderives with
    | @unnamed _ _ _ _ items h =>
        have haccepted := hexpansion.complete hs ⟨items, rfl, h⟩ hr.1
        simp [alternativeWith, haccepted, hr.2, Phrase.unnamedNode]
    | @named _ _ _ items arrow target h harrow htarget =>
        have haccepted := hexpansion.complete hs ⟨items, rfl, h⟩
          (by simp [harrow, extendsItems, extendsItem, extendsValue, startsItem,
            TokenKind.isOperator])
        simp [alternativeWith, haccepted, harrow, ruleName_cons htarget, Phrase.namedNode]

/-- Alternatives are recognized if items are. -/
theorem recognizes_expansionsWith {aliases : Bool} {item : Parse TokenStream Child}
    (hitem : item.Recognizes (fun s r child => Derives .item n s r [child]) extendsItem) :
    (expansionsWith aliases item).Recognizes
      (fun s r tree => Derives (.expansions aliases) n s r [.tree tree])
      extendsAlternatives where
  sound {s r tree} hs haccepted := by
    have halternative := recognizes_alternativeWith aliases hitem
    have hpasses := halternative.passes fun _ _ _ h => h.suffix
    rw [expansionsWith, bind_eq_accepted_iff] at haccepted
    obtain ⟨trees, m, htrees, haccepted⟩ := haccepted
    simp only [pure_apply, Outcome.accepted.injEq] at haccepted
    obtain ⟨rfl, rfl⟩ := haccepted
    refine .expansions ?_
    refine separated_induction hpasses
      (motive := fun s trees => Derives (.alternatives aliases) n s m (trees.map .tree))
      ?_ ?_ hs htrees
    · intro s tree hs hlast
      exact .lastAlternative (halternative.sound hs hlast)
    · intro s tree t m trees hs hfirst ht ih
      exact .alternative (halternative.sound hs hfirst) ht ih
  complete {s r tree} hs hderives hr := by
    have halternative := recognizes_alternativeWith aliases hitem
    have hpasses := halternative.passes fun _ _ _ h => h.suffix
    simp only [extendsAlternatives, Bool.or_eq_false_iff, beq_eq_false_iff_ne] at hr
    cases hderives with
    | @expansions _ _ _ _ trees h =>
        suffices haccepted : separated .pipe (alternativeWith aliases item) s =
            .accepted trees r by
          simp [expansionsWith, haccepted]
        induction trees generalizing s with
        | nil => cases h
        | cons tree trees ih =>
            rw [List.map_cons] at h
            generalize hslots : trees.map Child.tree = slots at h
            cases h with
            | lastAlternative h =>
                obtain rfl := List.map_eq_nil_iff.1 hslots
                exact separated_of_last (halternative.complete hs h hr.1) hr.2
            | alternative h hpipe hothers =>
                subst hslots
                have hm := hs.of_suffix h.suffix
                have hfirst := halternative.complete hs h (by simp [hpipe]; decide)
                exact separated_of_round hpasses hm hpipe hfirst (ih hm.of_cons hothers)

/-- **Alternatives are recognized**, with groups and arguments nested in them to every depth. -/
theorem recognizes_expansions (n : ℕ) (aliases : Bool) :
    (expansions n aliases).Recognizes
      (fun s r tree => Derives (.expansions aliases) n s r [.tree tree])
      extendsAlternatives := by
  induction n generalizing aliases with
  | zero =>
      rw [expansions_eq]
      exact recognizes_expansionsWith (recognizes_exprWith recognizes_atom_zero)
  | succ n ih =>
      rw [expansions_eq]
      exact recognizes_expansionsWith (recognizes_exprWith (recognizes_atom_succ (ih true)))

/-- **Items are recognized** at every depth. -/
theorem recognizes_item (n : ℕ) :
    (item n).Recognizes (fun s r child => Derives .item n s r [child]) extendsItem := by
  cases n with
  | zero => exact recognizes_exprWith recognizes_atom_zero
  | succ n => exact recognizes_exprWith (recognizes_atom_succ (recognizes_expansions n true))

end Parse

end GrammarCatalog
