/-
**Streams that match.**

Two streams match when their tokens are alike, one for one: of the same kinds, at places of which
something is known, such as that they are on the same line.  What a parser makes of a stream depends
on the kinds of its tokens alone, and spans are put together from where they begin.  So of streams
that match it makes trees that match, of the same shape with tokens that are alike, at places of
which the same is known; or it refuses both, for the same reason, at tokens that are alike.

Main definitions:

* `GrammarCatalog.Likeness` — what is known of tokens and of places, where parsers can keep to it;
* `GrammarCatalog.Tree.Matches`, `GrammarCatalog.Child.Matches` and
  `GrammarCatalog.TokenStream.Matches` — two nodes, two slots and two streams match;
* `GrammarCatalog.Parse.Alike` — two parsers make matching values of matching streams, or refuse
  both for the same reason.

Main results:

* `GrammarCatalog.Parse.Alike.bind`, `GrammarCatalog.Parse.Alike.many` — sequences and repetitions
  of such parsers are such parsers;
* `GrammarCatalog.Parse.alike_grammar` — **matching streams have matching trees**.
-/

import Mathlib.Data.List.Forall2
import GrammarCatalog.Tree.OfSource

set_option relaxedAutoImplicit false
set_option autoImplicit false

namespace GrammarCatalog

/-! ### Likenesses -/

/-- What is known of tokens of two texts and of where nodes made of them are, where parsers can keep
to it: the tokens are the same, and what is known of their places does not depend on where they
end. -/
structure Likeness where
  /-- What is known of two tokens. -/
  token : Token → Token → Prop
  /-- What is known of two spans. -/
  span : Span → Span → Prop
  /-- The tokens are the same. -/
  kind_eq {t t' : Token} (h : token t t') : t'.kind = t.kind
  /-- So much is known of the spans of tokens. -/
  span_token {t t' : Token} (h : token t t') : span t.span t'.span
  /-- It is so at the start of two texts. -/
  origin : span Span.origin Span.origin
  /-- It stays where the spans end elsewhere. -/
  ended {s s' : Span} (h : span s s') (stop stop' : Nat) :
    span { s with stop := stop } { s' with stop := stop' }

/-- A span merged with others is the same up to where it ends. -/
theorem Span.exists_foldl_merge_eq {α : Type} (f : α → Span) (items : List α) (span : Span) :
    ∃ stop, items.foldl (fun span item => span.merge (f item)) span =
      { span with stop := stop } := by
  induction items generalizing span with
  | nil => exact ⟨span.stop, rfl⟩
  | cons item items ih => exact ih (span.merge (f item))

variable {L : Likeness}

namespace Likeness

variable {span span' : Span}

theorem merge (h : L.span span span') (right right' : Span) :
    L.span (span.merge right) (span'.merge right') := L.ended h _ _

theorem collapse (h : L.span span span') : L.span span.collapse span'.collapse := L.ended h _ _

theorem foldl {α : Type} (f : α → Span) (h : L.span span span') (items items' : List α) :
    L.span (items.foldl (fun span item => span.merge (f item)) span)
      (items'.foldl (fun span item => span.merge (f item)) span') := by
  obtain ⟨stop, hstop⟩ := Span.exists_foldl_merge_eq f items span
  obtain ⟨stop', hstop'⟩ := Span.exists_foldl_merge_eq f items' span'
  rw [hstop, hstop']
  exact L.ended h stop stop'

end Likeness

/-! ### Nodes and streams -/

mutual

/-- Two nodes match: they are of the same kind, so much is known of their places, and their slots
match. -/
inductive Tree.Matches (L : Likeness) : Tree → Tree → Prop
  | node (kind : NodeKind) {slots slots' : List Child} {span span' : Span}
      (hslots : Child.AllMatch L slots slots') (hspan : L.span span span') :
      Tree.Matches L (.node kind slots span) (.node kind slots' span')

/-- Two slots match: with nodes that match, with tokens that are alike, or both empty. -/
inductive Child.Matches (L : Likeness) : Child → Child → Prop
  | tree {node node' : Tree} (h : Tree.Matches L node node') :
      Child.Matches L (.tree node) (.tree node')
  | token {leaf leaf' : Token} (h : L.token leaf leaf') :
      Child.Matches L (.token leaf) (.token leaf')
  | absent : Child.Matches L .absent .absent

/-- The slots of two lists match, one for one. -/
inductive Child.AllMatch (L : Likeness) : List Child → List Child → Prop
  | nil : Child.AllMatch L [] []
  | cons {slot slot' : Child} {slots slots' : List Child} (h : Child.Matches L slot slot')
      (hslots : Child.AllMatch L slots slots') : Child.AllMatch L (slot :: slots) (slot' :: slots')

end

/-- **Induction on lists of slots that match**: nodes in front have slots of their own. -/
theorem Child.AllMatch.slots_induction
    {motive : ∀ slots slots' : List Child, AllMatch L slots slots' → Prop}
    (nil : motive [] [] .nil)
    (tree : ∀ kind {children children' slots slots' : List Child} {span span' : Span}
      (hchildren : AllMatch L children children') (hspan : L.span span span')
      (hslots : AllMatch L slots slots'), motive children children' hchildren →
        motive slots slots' hslots →
        motive (.tree (.node kind children span) :: slots)
          (.tree (.node kind children' span') :: slots')
          (.cons (.tree (.node kind hchildren hspan)) hslots))
    (token : ∀ {leaf leaf' : Token} {slots slots' : List Child} (hleaf : L.token leaf leaf')
      (hslots : AllMatch L slots slots'), motive slots slots' hslots →
        motive (.token leaf :: slots) (.token leaf' :: slots') (.cons (.token hleaf) hslots))
    (absent : ∀ {slots slots' : List Child} (hslots : AllMatch L slots slots'),
      motive slots slots' hslots →
        motive (.absent :: slots) (.absent :: slots') (.cons .absent hslots)) :
    ∀ {slots slots' : List Child} (h : AllMatch L slots slots'), motive slots slots' h
  | [], _, .nil => nil
  | .tree (.node kind _ _) :: _, _, .cons (.tree (.node _ hchildren hspan)) hslots =>
      tree kind hchildren hspan hslots (slots_induction nil tree token absent hchildren)
        (slots_induction nil tree token absent hslots)
  | .token _ :: _, _, .cons (.token hleaf) hslots =>
      token hleaf hslots (slots_induction nil tree token absent hslots)
  | .absent :: _, _, .cons .absent hslots =>
      absent hslots (slots_induction nil tree token absent hslots)

theorem Child.AllMatch.of_forall₂ {slots slots' : List Child}
    (h : List.Forall₂ (Child.Matches L) slots slots') : Child.AllMatch L slots slots' := by
  induction h with
  | nil => exact .nil
  | cons hslot _ ih => exact .cons hslot ih

theorem Child.AllMatch.tokens {leaves leaves' : List Token}
    (h : List.Forall₂ L.token leaves leaves') :
    Child.AllMatch L (leaves.map .token) (leaves'.map .token) := by
  induction h with
  | nil => exact .nil
  | cons hleaf _ ih => exact .cons (.token hleaf) ih

theorem Child.AllMatch.trees {nodes nodes' : List Tree}
    (h : List.Forall₂ (Tree.Matches L) nodes nodes') :
    Child.AllMatch L (nodes.map .tree) (nodes'.map .tree) := by
  induction h with
  | nil => exact .nil
  | cons hnode _ ih => exact .cons (.tree hnode) ih

theorem Tree.Matches.span {node node' : Tree} (h : node.Matches L node') :
    L.span node.span node'.span := by
  cases h with
  | node _ _ hspan => exact hspan

theorem Tree.Matches.withSpan {node node' : Tree} {span span' : Span} (h : node.Matches L node')
    (hspan : L.span span span') : (node.withSpan span).Matches L (node'.withSpan span') := by
  cases h with
  | node kind hslots _ => exact .node kind hslots hspan

theorem Child.Matches.span {slot slot' : Child} (h : slot.Matches L slot') :
    L.span slot.span slot'.span := by
  cases h with
  | tree h => exact h.span
  | token h => exact L.span_token h
  | absent => exact L.origin

/-- Two streams match: their tokens do, one for one. -/
structure TokenStream.Matches (L : Likeness) (stream stream' : TokenStream) : Prop where
  /-- The current tokens match. -/
  current : L.token stream.current stream'.current
  /-- So do the tokens ahead. -/
  ahead : List.Forall₂ L.token stream.ahead stream'.ahead

theorem TokenStream.Matches.advance {stream stream' : TokenStream} (h : stream.Matches L stream') :
    stream.advance.Matches L stream'.advance := by
  obtain ⟨current, ahead⟩ := stream
  obtain ⟨current', ahead'⟩ := stream'
  obtain ⟨hcurrent, hahead⟩ := h
  cases hahead with
  | nil => exact ⟨hcurrent, .nil⟩
  | cons hnext hahead => exact ⟨hnext, hahead⟩

namespace Parse

variable {α β γ δ : Type} {V : α → β → Prop} {W : γ → δ → Prop}

/-! ### Parsers -/

/-- Two outcomes match: with values of which something is known, or with the same reason. -/
inductive Outcome.Matches (L : Likeness) (V : α → β → Prop) :
    Outcome TokenStream α → Outcome TokenStream β → Prop
  | accepted {value : α} {value' : β} {rest rest' : TokenStream} (hvalue : V value value')
      (hrest : rest.Matches L rest') :
      Outcome.Matches L V (.accepted value rest) (.accepted value' rest')
  | refused {reason : Refusal} {rest rest' : TokenStream} (hrest : rest.Matches L rest') :
      Outcome.Matches L V (.refused reason rest) (.refused reason rest')

/-- Two parsers make values of which something is known of streams that match, or refuse both for
the same reason. -/
def Alike (L : Likeness) (V : α → β → Prop) (parser : Parse TokenStream α)
    (parser' : Parse TokenStream β) :
    Prop := ∀ s s', s.Matches L s' → (parser s).Matches L V (parser' s')

variable {parser : Parse TokenStream α} {parser' : Parse TokenStream β}

theorem alike_pure {value : α} {value' : β} (h : V value value') :
    Alike L V (pure value) (pure value') := fun _ _ hs => .accepted h hs

theorem alike_current : Alike L L.token current current :=
  fun _ _ hs => .accepted hs.current hs

theorem alike_take : Alike L L.token take take :=
  fun _ _ hs => .accepted hs.current hs.advance

theorem alike_refuse (reason : Refusal) : Alike L V (refuse reason) (refuse reason) :=
  fun _ _ hs => .refused hs

theorem alike_unexpected (expected : Expectation) :
    Alike L V (unexpected expected) (unexpected expected) := by
  intro s s' hs
  simp only [unexpected, TokenSource.stream_eq]
  rw [L.kind_eq hs.current]
  split
  · exact .refused hs
  · exact .refused hs

/-- Sequences are alike if their parts are. -/
theorem Alike.bind {next : α → Parse TokenStream γ} {next' : β → Parse TokenStream δ}
    (h : Alike L V parser parser')
    (hnext : ∀ value value', V value value' → Alike L W (next value) (next' value')) :
    Alike L W (parser >>= next) (parser' >>= next') := by
  intro s s' hs
  have houtcome := h s s' hs
  rw [bind_apply, bind_apply]
  generalize parser s = outcome at houtcome
  generalize parser' s' = outcome' at houtcome
  cases houtcome with
  | accepted hvalue hrest => exact hnext _ _ hvalue _ _ hrest
  | refused hrest => exact .refused hrest

/-- What comes of looking at a kind is alike, since the kinds are the same. -/
theorem alike_kind_bind {next : TokenKind → Parse TokenStream γ}
    {next' : TokenKind → Parse TokenStream δ}
    (h : ∀ kind, Alike L W (next kind) (next' kind)) :
    Alike L W (kind >>= next) (kind >>= next') := by
  have hkind : Alike L Eq kind kind := fun _ _ hs => .accepted (L.kind_eq hs.current).symm hs
  refine hkind.bind fun kind kind' heq => ?_
  subst heq
  exact h kind

theorem Alike.ite {condition : Prop} [Decidable condition] {other : Parse TokenStream α}
    {other' : Parse TokenStream β}
    (h : Alike L V parser parser') (hother : Alike L V other other') :
    Alike L V (if condition then parser else other) (if condition then parser' else other') := by
  split
  · exact h
  · exact hother

theorem alike_expect (expected : Expectation) (suits : TokenKind → Bool) :
    Alike L L.token (expect expected suits) (expect expected suits) :=
  alike_kind_bind fun _ => alike_take.ite (alike_unexpected expected)

theorem alike_sign (which : Punctuation) : Alike L L.token (sign which) (sign which) :=
  alike_expect _ _

theorem alike_ruleName : Alike L L.token ruleName ruleName := alike_expect _ _

theorem alike_name : Alike L L.token name name := alike_expect _ _

theorem alike_number : Alike L L.token number number := alike_expect _ _

theorem alike_refuseMalformed : Alike L Eq refuseMalformed refuseMalformed := by
  refine alike_kind_bind fun kind => ?_
  split
  · exact alike_refuse _
  · exact alike_pure rfl

/-! ### Repetitions -/

theorem Alike.manyWithin {goesOn : TokenKind → Bool} (h : Alike L V parser parser')
    {bound bound' : List Token} (hbound : List.Forall₂ L.token bound bound') :
    Alike L (List.Forall₂ V) (manyWithin goesOn parser bound)
      (Parse.manyWithin goesOn parser' bound') := by
  induction hbound with
  | nil => exact alike_pure .nil
  | cons _ _ ih =>
      refine alike_kind_bind fun _ => Alike.ite ?_ (alike_pure .nil)
      exact h.bind fun _ _ hfirst => ih.bind fun _ _ hothers => alike_pure (.cons hfirst hothers)

/-- Repetitions are alike if their rounds are. -/
theorem Alike.many {goesOn : TokenKind → Bool} (h : Alike L V parser parser') :
    Alike L (List.Forall₂ V) (many goesOn parser) (Parse.many goesOn parser') := by
  intro s s' hs
  exact h.manyWithin (.cons hs.current hs.ahead) s s' hs

theorem Alike.separated {separator : Punctuation} (h : Alike L V parser parser') :
    Alike L (List.Forall₂ V) (separated separator parser) (Parse.separated separator parser') := by
  refine h.bind fun _ _ hfirst => ?_
  refine (Alike.many (alike_take.bind fun _ _ _ => h)).bind fun _ _ hothers => ?_
  exact alike_pure (.cons hfirst hothers)

/-! ### Values and groups -/

theorem alike_atomWith {group atom : Parse TokenStream Child}
    (hgroup : Alike L (Child.Matches L) group group)
    (hatom : Alike L (Child.Matches L) atom atom) :
    Alike L (Child.Matches L) (atomWith group atom) (atomWith group atom) := by
  refine alike_kind_bind fun kind => ?_
  split
  · exact hgroup
  · exact hgroup
  · exact hatom

theorem alike_literalString : Alike L (Child.Matches L) literalString literalString := by
  refine alike_take.bind fun low low' hlow => alike_kind_bind fun _ => ?_
  refine Alike.ite ?_ (alike_pure (.token hlow))
  refine alike_take.bind fun _ _ _ => alike_kind_bind fun kind => ?_
  split
  · refine alike_take.bind fun high high' hhigh => alike_pure (.tree ?_)
    exact .node _ (.cons (.token hlow) (.cons (.token hhigh) .nil))
      (L.merge (L.span_token hlow) _ _)
  · exact alike_refuse _

theorem alike_ruleReference {argument : Parse TokenStream Child}
    (h : Alike L (Child.Matches L) argument argument) :
    Alike L (Child.Matches L) (ruleReference argument) (ruleReference argument) := by
  refine alike_take.bind fun name name' hname => alike_kind_bind fun _ => ?_
  refine Alike.ite ?_ (alike_pure (.token hname))
  refine alike_take.bind fun _ _ _ => h.separated.bind fun _ _ harguments => ?_
  refine (alike_sign _).bind fun _ _ _ => alike_pure (.tree ?_)
  exact .node _ (.cons (.token hname) (.of_forall₂ harguments)) (L.merge (L.span_token hname) _ _)

theorem alike_valueWith {argument : Parse TokenStream Child}
    (h : Alike L (Child.Matches L) argument argument) :
    Alike L (Child.Matches L) (valueWith argument) (valueWith argument) := by
  refine alike_kind_bind fun kind => ?_
  split
  · exact alike_literalString
  · exact alike_take.bind fun _ _ htoken => alike_pure (.token htoken)
  · exact alike_take.bind fun _ _ htoken => alike_pure (.token htoken)
  · exact alike_ruleReference h
  · exact alike_unexpected _

theorem alike_value (depth : Nat) : Alike L (Child.Matches L) (value depth) (value depth) := by
  induction depth with
  | zero =>
      rw [value_zero]
      exact alike_valueWith (alike_refuse _)
  | succ depth ih =>
      rw [value_succ]
      exact alike_valueWith ih

theorem alike_groupWith {body : Parse TokenStream Tree} (h : Alike L (Tree.Matches L) body body) :
    Alike L (Child.Matches L) (groupWith body) (groupWith body) := by
  refine alike_take.bind fun opening opening' hopening => h.bind fun _ _ hbody => ?_
  have hspan (closing closing' : Token) :=
    L.merge (L.span_token hopening) closing.span closing'.span
  rw [L.kind_eq hopening]
  refine Alike.ite ?_ ?_
  · refine (alike_sign _).bind fun closing closing' _ => alike_pure (.tree ?_)
    exact hbody.withSpan (hspan closing closing')
  · refine (alike_sign _).bind fun closing closing' _ => alike_pure (.tree ?_)
    exact .node _ (.cons (.tree hbody) .nil) (hspan closing closing')

theorem alike_repetition {operand operand' : Child} (h : operand.Matches L operand') :
    Alike L (Child.Matches L) (repetition operand) (repetition operand') := by
  refine alike_take.bind fun _ _ _ => alike_number.bind fun count count' hcount => ?_
  have hspan := L.merge (h.span) count.span count'.span
  refine alike_kind_bind fun _ => Alike.ite ?_ ?_
  · refine alike_take.bind fun _ _ _ => alike_number.bind fun upper upper' hupper => ?_
    refine alike_pure (.tree (.node _ ?_ (L.merge hspan _ _)))
    exact .cons h (.cons (.token hcount) (.cons (.token hupper) .nil))
  · refine alike_pure (.tree (.node _ ?_ hspan))
    exact .cons h (.cons (.token hcount) (.cons .absent .nil))

theorem alike_exprWith {atom : Parse TokenStream Child} (h : Alike L (Child.Matches L) atom atom) :
    Alike L (Child.Matches L) (exprWith atom) (exprWith atom) := by
  refine h.bind fun operand operand' hoperand => alike_kind_bind fun kind => ?_
  have hoperated : Alike L (Child.Matches L)
      (do
        let operator ← take
        return .tree (.node .expr [operand, .token operator] (operand.span.merge operator.span)))
      (do
        let operator ← take
        return .tree
          (.node .expr [operand', .token operator] (operand'.span.merge operator.span))) := by
    refine alike_take.bind fun _ _ hoperator => alike_pure (.tree ?_)
    exact .node _ (.cons hoperand (.cons (.token hoperator) .nil))
      (L.merge (hoperand.span) _ _)
  split
  · exact hoperated
  · exact hoperated
  · exact hoperated
  · exact alike_repetition hoperand
  · exact alike_pure hoperand

/-! ### Alternatives -/

theorem alike_expansionWith {item : Parse TokenStream Child}
    (h : Alike L (Child.Matches L) item item) :
    Alike L (Tree.Matches L) (expansionWith item) (expansionWith item) := by
  refine alike_current.bind fun _ _ hcurrent => h.many.bind fun items items' hitems => ?_
  refine alike_refuseMalformed.bind fun _ _ _ => alike_pure ?_
  exact .node _ (.of_forall₂ hitems) (L.foldl _ (L.collapse (L.span_token hcurrent)) items items')

theorem alike_alternativeWith {item : Parse TokenStream Child}
    (h : Alike L (Child.Matches L) item item)
    (aliases : Bool) :
    Alike L (Tree.Matches L) (alternativeWith aliases item) (alternativeWith aliases item) := by
  refine (alike_expansionWith h).bind fun expansion expansion' hexpansion => ?_
  refine alike_kind_bind fun _ => Alike.ite (Alike.ite ?_ (alike_refuse _)) (alike_pure ?_)
  · refine alike_take.bind fun _ _ _ => alike_ruleName.bind fun _ _ htarget => alike_pure ?_
    exact .node _ (.cons (.tree hexpansion) (.cons (.token htarget) .nil))
      (L.merge hexpansion.span _ _)
  · exact .node _ (.cons (.tree hexpansion) (.cons .absent .nil)) hexpansion.span

theorem matches_expansionsNode {alternatives alternatives' : List Tree}
    (h : List.Forall₂ (Tree.Matches L) alternatives alternatives') :
    (expansionsNode alternatives).Matches L (expansionsNode alternatives') := by
  refine .node _ (.trees h) ?_
  cases h with
  | nil => exact L.origin
  | cons hfirst _ => exact L.foldl _ hfirst.span _ _

theorem alike_expansionsWith {item : Parse TokenStream Child}
    (h : Alike L (Child.Matches L) item item)
    (aliases : Bool) :
    Alike L (Tree.Matches L) (expansionsWith aliases item) (expansionsWith aliases item) :=
  (alike_alternativeWith h aliases).separated.bind fun _ _ halternatives =>
    alike_pure (matches_expansionsNode halternatives)

/-- Alternatives are alike if the groups in them are. -/
theorem alike_expansions_of_group {depth : Nat}
    (h : Alike L (Child.Matches L) (group depth) (group depth)) (aliases : Bool) :
    Alike L (Tree.Matches L) (expansions depth aliases) (expansions depth aliases) := by
  rw [expansions_eq]
  exact alike_expansionsWith (alike_exprWith (alike_atomWith h (alike_value depth))) aliases

theorem alike_expansions (depth : Nat) (aliases : Bool) :
    Alike L (Tree.Matches L) (expansions depth aliases) (expansions depth aliases) := by
  induction depth generalizing aliases with
  | zero =>
      refine alike_expansions_of_group ?_ aliases
      rw [group_zero]
      exact alike_refuse .nestedTooDeeply
  | succ depth ih =>
      refine alike_expansions_of_group ?_ aliases
      rw [group_succ]
      exact alike_groupWith (ih true)

/-! ### Statements -/

theorem alike_templateParams : Alike L (Child.Matches L) templateParams templateParams := by
  refine alike_kind_bind fun _ => Alike.ite ?_ (alike_pure .absent)
  refine alike_take.bind fun _ _ hopening => alike_ruleName.separated.bind fun _ _ hnames => ?_
  refine (alike_sign _).bind fun _ _ _ => alike_pure (.tree ?_)
  exact .node _ (.tokens hnames) (L.merge (L.span_token hopening) _ _)

theorem alike_priority : Alike L (Child.Matches L) priority priority := by
  refine alike_kind_bind fun _ => Alike.ite ?_ (alike_pure .absent)
  exact alike_take.bind fun _ _ _ => alike_number.bind fun _ _ hnumber =>
    alike_pure (.token hnumber)

theorem alike_rule : Alike L (Tree.Matches L) rule rule := by
  refine alike_take.bind fun _ _ hname => (alike_templateParams).bind fun _ _ hparams => ?_
  refine alike_priority.bind fun _ _ hpriority => (alike_sign _).bind fun _ _ _ => ?_
  refine (alike_expansions _ _).bind fun _ _ hbody => alike_pure ?_
  refine .node _ ?_ (L.merge (L.span_token hname) _ _)
  exact .cons (.token hname) (.cons hparams (.cons hpriority (.cons (.tree hbody) .nil)))

theorem alike_term : Alike L (Tree.Matches L) term term := by
  refine alike_take.bind fun _ _ hname => alike_priority.bind fun _ _ hpriority => ?_
  refine (alike_sign _).bind fun _ _ _ => (alike_expansions _ _).bind fun _ _ hbody => ?_
  refine alike_pure (.node _ ?_ (L.merge (L.span_token hname) _ _))
  exact .cons (.token hname) (.cons hpriority (.cons (.tree hbody) .nil))

theorem alike_definition (expected : Expectation) :
    Alike L (Tree.Matches L) (definition expected) (definition expected) := by
  refine alike_kind_bind fun kind => ?_
  split
  · exact alike_rule
  · exact alike_term
  · exact alike_unexpected _

theorem alike_importPath : Alike L (Tree.Matches L) importPath importPath := by
  have hpath {start start' : Token} (hstart : L.token start start')
      {relative relative' : List Token} (hrelative : List.Forall₂ L.token relative relative') :
      Alike L (Tree.Matches L)
        (do
          let names ← separated .dot name
          let last := names.getLastD ⟨.endOfInput, start.span⟩
          return .node .importPath ((relative ++ names).map .token) (start.span.merge last.span))
        (do
          let names ← separated .dot name
          let last := names.getLastD ⟨.endOfInput, start'.span⟩
          return .node .importPath ((relative' ++ names).map .token)
            (start'.span.merge last.span)) := by
    refine alike_name.separated.bind fun _ _ hnames => alike_pure ?_
    exact .node _ (.tokens (List.rel_append hrelative hnames)) (L.merge (L.span_token hstart) _ _)
  refine alike_current.bind fun _ _ hstart => alike_kind_bind fun _ => Alike.ite ?_ ?_
  · refine alike_take.bind fun _ _ hdot => ?_
    exact (alike_pure (.cons hdot .nil)).bind fun _ _ hrelative => hpath hstart hrelative
  · exact (alike_pure .nil).bind fun _ _ hrelative => hpath hstart hrelative

theorem alike_imported {start start' : Span} (h : L.span start start') :
    Alike L (Tree.Matches L) (imported start) (imported start') := by
  refine (alike_importPath).bind fun path path' hpath => alike_kind_bind fun kind => ?_
  have hspan := L.merge h path.span path'.span
  split
  · refine alike_take.bind fun _ _ _ => alike_name.separated.bind fun _ _ hnames => ?_
    refine (alike_sign _).bind fun _ _ _ => alike_pure ?_
    exact .node _ (.cons (.tree hpath) (.tokens hnames)) (L.merge hspan _ _)
  · refine alike_take.bind fun _ _ _ => alike_name.bind fun _ _ htarget => alike_pure ?_
    exact .node _ (.cons (.tree hpath) (.cons (.token htarget) .nil)) (L.merge hspan _ _)
  · exact alike_pure (.node _ (.cons (.tree hpath) (.cons .absent .nil)) hspan)

theorem alike_declared {start start' : Span} (h : L.span start start') :
    Alike L (Tree.Matches L) (declared start) (declared start') := by
  refine alike_name.bind fun _ _ hfirst => alike_name.many.bind fun _ _ hothers => alike_pure ?_
  exact .node _ (.tokens (.cons hfirst hothers)) (L.merge h _ _)

theorem alike_redefinition (node : NodeKind) (which : Directive) {start start' : Span}
    (h : L.span start start') :
    Alike L (Tree.Matches L) (redefinition node which start) (redefinition node which start') :=
  (alike_definition _).bind fun _ _ hbody =>
    alike_pure (.node _ (.cons (.tree hbody) .nil) (L.merge h _ _))

theorem alike_directive (name : String) :
    Alike L (Tree.Matches L) (directive name) (directive name) := by
  unfold directive
  split
  · exact alike_refuse _
  · refine alike_take.bind fun token token' htoken => ?_
    split
    · refine (alike_expansions _ _).bind fun _ _ hbody => alike_pure ?_
      exact .node _ (.cons (.tree hbody) .nil) (L.merge (L.span_token htoken) _ _)
    · exact alike_imported (L.span_token htoken)
    · exact alike_declared (L.span_token htoken)
    · exact alike_redefinition _ _ (L.span_token htoken)
    · exact alike_redefinition _ _ (L.span_token htoken)

theorem alike_statement : Alike L (Tree.Matches L) statement statement := by
  refine alike_kind_bind fun kind => ?_
  split
  · exact alike_directive _
  · exact alike_definition _

/-! ### Texts -/

theorem alike_endOfStatement : Alike L Eq endOfStatement endOfStatement := by
  refine alike_kind_bind fun kind => ?_
  split
  · exact alike_take.bind fun _ _ _ => alike_pure rfl
  · exact alike_pure rfl
  · exact alike_unexpected _

theorem alike_blankLines : Alike L Eq blankLines blankLines :=
  alike_take.many.bind fun _ _ _ => alike_pure rfl

theorem alike_terminatedStatement :
    Alike L (Tree.Matches L) terminatedStatement terminatedStatement :=
  (alike_statement).bind fun _ _ htree => alike_endOfStatement.bind fun _ _ _ =>
    alike_blankLines.bind fun _ _ _ => alike_pure htree

/-- **Matching streams have matching trees**, whatever the lengths of their texts. -/
theorem alike_grammar (length length' : Nat) :
    Alike L (Tree.Matches L) (grammar length) (grammar length') :=
  alike_blankLines.bind fun _ _ _ => (alike_terminatedStatement).many.bind fun _ _ hstatements =>
    alike_pure (.node _ (.trees hstatements) (L.ended L.origin length length'))

end Parse

end GrammarCatalog
