/-
**Trees farther down.**

What a phrase makes of its tokens does not depend on where they stand: moved tokens make moved
nodes.  Nor does it depend on what stands behind the phrase, apart from the place where that begins,
because an alternative without items is the empty span there.

Main definitions:

* `GrammarCatalog.Tree.shift`, `GrammarCatalog.Child.shift` — a node and a slot, moved by some bytes
  and lines with all that is below them;
* `GrammarCatalog.TokenStream.Moves` — two streams that have the same tokens up to two others, those
  of the second moved.

Main results:

* `GrammarCatalog.Child.merge_span_shift` — merging with the span of a slot goes with moving both;
* `GrammarCatalog.Phrase.Derives.shift` — **moved tokens make moved nodes**, whatever stands behind
  them.
-/

import GrammarCatalog.Proofs.MetaGrammar.Words
import GrammarCatalog.Proofs.Token.Shift

set_option relaxedAutoImplicit false
set_option autoImplicit false

namespace GrammarCatalog

/-! ### Nodes and slots -/

mutual

/-- The node moved by some bytes and lines, with all that is below it. -/
def Tree.shift (bytes lines : ℕ) : Tree → Tree
  | .node kind children span =>
      .node kind (Child.shiftAll bytes lines children) (span.shift bytes lines)

/-- The slots moved by some bytes and lines. -/
def Child.shiftAll (bytes lines : ℕ) : List Child → List Child
  | [] => []
  | .tree node :: children => .tree (node.shift bytes lines) :: Child.shiftAll bytes lines children
  | .token leaf :: children =>
      .token (leaf.shift bytes lines) :: Child.shiftAll bytes lines children
  | .absent :: children => .absent :: Child.shiftAll bytes lines children

end

/-- The slot moved by some bytes and lines. -/
def Child.shift (bytes lines : ℕ) : Child → Child
  | .tree node => .tree (node.shift bytes lines)
  | .token leaf => .token (leaf.shift bytes lines)
  | .absent => .absent

variable {bytes lines : ℕ}

@[simp] theorem Child.shift_tree (node : Tree) :
    (Child.tree node).shift bytes lines = .tree (node.shift bytes lines) := rfl

@[simp] theorem Child.shift_token (leaf : Token) :
    (Child.token leaf).shift bytes lines = .token (leaf.shift bytes lines) := rfl

@[simp] theorem Child.shift_absent : Child.absent.shift bytes lines = .absent := rfl

theorem Child.shiftAll_eq_map (children : List Child) :
    Child.shiftAll bytes lines children = children.map (Child.shift bytes lines) := by
  induction children with
  | nil => rfl
  | cons child children ih => cases child <;> simp [Child.shiftAll, ih]

@[simp] theorem Tree.shift_node (kind : NodeKind) (children : List Child) (span : Span) :
    (Tree.node kind children span).shift bytes lines =
      .node kind (children.map (Child.shift bytes lines)) (span.shift bytes lines) := by
  rw [Tree.shift, Child.shiftAll_eq_map]

@[simp] theorem Tree.span_shift (node : Tree) :
    (node.shift bytes lines).span = node.span.shift bytes lines := by
  cases node
  rw [Tree.shift_node]
  rfl

@[simp] theorem Tree.shift_withSpan (node : Tree) (span : Span) :
    (node.withSpan span).shift bytes lines =
      (node.shift bytes lines).withSpan (span.shift bytes lines) := by
  cases node
  simp [Tree.withSpan]

mutual

/-- Moved by nothing, a node stays what it is. -/
theorem Tree.shift_zero : ∀ node : Tree, node.shift 0 0 = node
  | .node kind children span => by
      rw [Tree.shift, Child.shiftAll_zero children, Span.shift_zero]

theorem Child.shiftAll_zero : ∀ children : List Child, Child.shiftAll 0 0 children = children
  | [] => rfl
  | .tree node :: children => by
      rw [Child.shiftAll, Tree.shift_zero node, Child.shiftAll_zero children]
  | .token leaf :: children => by
      rw [Child.shiftAll, Token.shift_zero, Child.shiftAll_zero children]
  | .absent :: children => by rw [Child.shiftAll, Child.shiftAll_zero children]

end

/-- Merging with the span of a slot goes with moving both. -/
@[simp] theorem Child.merge_span_shift (span : Span) (child : Child) :
    (span.shift bytes lines).merge (child.shift bytes lines).span =
      (span.merge child.span).shift bytes lines := by
  cases child with
  | tree node => rw [Child.shift_tree, Child.span, Tree.span_shift, Span.merge_shift, Child.span]
  | token leaf => rw [Child.shift_token, Child.span, Token.span_shift, Span.merge_shift, Child.span]
  | absent => rw [Child.shift_absent, Child.merge_span_absent, Child.merge_span_absent]

theorem Child.span_shift {child : Child} (h : child ≠ .absent) :
    (child.shift bytes lines).span = child.span.shift bytes lines := by
  cases child with
  | tree node => exact Tree.span_shift node
  | token leaf => rfl
  | absent => exact absurd rfl h

theorem foldl_merge_shift (bytes lines : ℕ) (start : Span) (items : List Child) :
    (items.map (Child.shift bytes lines)).foldl (fun span child => span.merge child.span)
        (start.shift bytes lines) =
      (items.foldl (fun span child => span.merge child.span) start).shift bytes lines := by
  induction items generalizing start with
  | nil => rfl
  | cons item items ih =>
      rw [List.map_cons, List.foldl_cons, List.foldl_cons, Child.merge_span_shift, ih]

/-! ### Streams -/

namespace TokenStream

/-- Up to two others, the streams have the same tokens, those of the second moved. -/
def Moves (bytes lines : ℕ) (s r s' r' : TokenStream) : Prop :=
  ∃ taken, s = r.prepend taken ∧ s' = r'.prepend (taken.map (Token.shift bytes lines))

/-- Two streams begin at the same place, that of the second moved. -/
def Aligned (bytes lines : ℕ) (s s' : TokenStream) : Prop :=
  s'.current.span.collapse = s.current.span.collapse.shift bytes lines

namespace Moves

variable {s m r s' m' r' : TokenStream} {t : Token}

theorem refl (r r' : TokenStream) : Moves bytes lines r r r' r' := ⟨[], rfl, rfl⟩

theorem trans (h : Moves bytes lines s m s' m') (h' : Moves bytes lines m r m' r') :
    Moves bytes lines s r s' r' := by
  obtain ⟨first, rfl, rfl⟩ := h
  obtain ⟨second, rfl, rfl⟩ := h'
  exact ⟨first ++ second, (prepend_append ..).symm, by rw [List.map_append, prepend_append]⟩

theorem token (t : Token) (r r' : TokenStream) :
    Moves bytes lines (r.cons t) r (r'.cons (t.shift bytes lines)) r' := ⟨[t], rfl, rfl⟩

/-- One more token in front. -/
theorem front (h : Moves bytes lines s r s' r') (t : Token) :
    Moves bytes lines (s.cons t) r (s'.cons (t.shift bytes lines)) r' := (token t s s').trans h

/-- One more token behind. -/
theorem back (h : Moves bytes lines s (r.cons t) s' (r'.cons (t.shift bytes lines))) :
    Moves bytes lines s r s' r' := h.trans (token t r r')

/-- Where something is taken, the first token is moved. -/
theorem current_eq (h : Moves bytes lines s r s' r') (hlt : r.toList.length < s.toList.length) :
    s'.current = s.current.shift bytes lines := by
  obtain ⟨_ | ⟨t, taken⟩, rfl, rfl⟩ := h
  · simp at hlt
  · rfl

theorem aligned (h : Moves bytes lines s r s' r') (hr : Aligned bytes lines r r') :
    Aligned bytes lines s s' := by
  obtain ⟨_ | ⟨t, taken⟩, rfl, rfl⟩ := h
  · exact hr
  · rfl

end Moves

end TokenStream

/-! ### Derivations -/

namespace Phrase

open TokenStream (Moves Aligned)

theorem itemsNode_shift {start start' : Span}
    (h : start'.collapse = start.collapse.shift bytes lines) (items : List Child) :
    itemsNode start' (items.map (Child.shift bytes lines)) =
      (itemsNode start items).shift bytes lines := by
  rw [itemsNode, h, foldl_merge_shift, itemsNode, Tree.shift_node]

theorem countNode_shift {operand : Child} (h : operand ≠ .absent) (count : Token) (upper : Child) :
    countNode (operand.shift bytes lines) (count.shift bytes lines) (upper.shift bytes lines) =
      (countNode operand count upper).shift bytes lines := by
  simp [countNode, Child.span_shift h, Span.merge_shift]

theorem map_token_shift (tokens : List Token) :
    (tokens.map Child.token).map (Child.shift bytes lines) =
      (tokens.map (Token.shift bytes lines)).map .token := by
  rw [List.map_map, List.map_map]
  rfl

theorem map_tree_shift (trees : List Tree) :
    (trees.map Child.tree).map (Child.shift bytes lines) =
      (trees.map (Tree.shift bytes lines)).map .tree := by
  rw [List.map_map, List.map_map]
  rfl

theorem getLastD_shift (tokens : List Token) (default : Token) :
    (tokens.map (Token.shift bytes lines)).getLastD (default.shift bytes lines) =
      (tokens.getLastD default).shift bytes lines := by
  rw [List.getLastD_eq_getLast?, List.getLastD_eq_getLast?, List.getLast?_map]
  cases tokens.getLast? <;> rfl

theorem pathNode_shift (start : Span) (relative names : List Token) :
    (pathNode start relative names).shift bytes lines =
      pathNode (start.shift bytes lines) (relative.map (Token.shift bytes lines))
        (names.map (Token.shift bytes lines)) := by
  have hlast : (names.map (Token.shift bytes lines)).getLastD
      ⟨.endOfInput, start.shift bytes lines⟩ =
        (names.getLastD ⟨.endOfInput, start⟩).shift bytes lines :=
    getLastD_shift names ⟨.endOfInput, start⟩
  rw [pathNode, Tree.shift_node, map_token_shift, List.map_append, ← Span.merge_shift,
    ← Token.span_shift, ← hlast]
  rfl

theorem expansionsNode_shift {alternatives : List Tree} (h : alternatives ≠ []) :
    Parse.expansionsNode (alternatives.map (Tree.shift bytes lines)) =
      (Parse.expansionsNode alternatives).shift bytes lines := by
  obtain ⟨first, others, rfl⟩ := List.exists_cons_of_ne_nil h
  have hspan := foldl_merge_shift bytes lines first.span (others.map .tree)
  simp only [List.map_map, List.foldl_map, Function.comp_def, Child.shift_tree, Child.span,
    Tree.span_shift] at hspan
  simp [Parse.expansionsNode, List.foldl_map, hspan]

variable {n : ℕ} {s r : TokenStream}

/-- An operand is no empty slot. -/
theorem Derives.ne_absent_of_atom {operand : Child} (h : Derives .atom n s r [operand]) :
    operand ≠ .absent := by
  rintro rfl
  cases h with
  | single h => cases h

/-- Slots that are the same in another form. -/
theorem Derives.of_eq {phrase : Phrase} {slots slots' : List Child}
    (h : Derives phrase n s r slots) (heq : slots = slots') : Derives phrase n s r slots' := heq ▸ h

/-- **Moved tokens make moved nodes**, whatever stands behind them at the moved place. -/
theorem Derives.shift {phrase : Phrase} {slots : List Child} (h : Derives phrase n s r slots)
    (r' : TokenStream) (hr : Aligned bytes lines r r') :
    ∃ s', Moves bytes lines s r s' r' ∧
      Derives phrase n s' r' (slots.map (Child.shift bytes lines)) := by
  induction h generalizing r' with
  -- values and their arguments
  | token ht => exact ⟨_, .token _ _ _, .token ht⟩
  | @range _ low dots high _ hlow hdots hhigh =>
      refine ⟨_, ((Moves.token high _ r').front dots).front low, ?_⟩
      exact .of_eq (.range hlow hdots hhigh) (by simp)
  | @usage _ name opening closing _ r _ hname hopening _ hclosing ih =>
      obtain ⟨s', hmoves, h⟩ := ih (r'.cons (closing.shift bytes lines)) rfl
      refine ⟨_, (hmoves.back.front opening).front name, ?_⟩
      exact .of_eq (.usage hname hopening h hclosing) (by simp)
  | lastArgument _ ih =>
      obtain ⟨s', hmoves, h⟩ := ih r' hr
      exact ⟨s', hmoves, .lastArgument h⟩
  | @argument _ _ m r comma _ _ _ hcomma _ ih ih' =>
      obtain ⟨m', hmoves', h'⟩ := ih' r' hr
      obtain ⟨s', hmoves, h⟩ := ih (m'.cons (comma.shift bytes lines)) rfl
      exact ⟨s', hmoves.back.trans hmoves', .argument h hcomma h'⟩
  -- groups
  | single _ ih =>
      obtain ⟨s', hmoves, h⟩ := ih r' hr
      exact ⟨s', hmoves, .single h⟩
  | @parens _ opening closing _ _ body hopening _ hclosing ih =>
      obtain ⟨s', hmoves, h⟩ := ih (r'.cons (closing.shift bytes lines)) rfl
      refine ⟨_, hmoves.back.front opening, ?_⟩
      exact .of_eq (.parens hopening h hclosing) (by simp)
  | @brackets _ opening closing _ _ body hopening _ hclosing ih =>
      obtain ⟨s', hmoves, h⟩ := ih (r'.cons (closing.shift bytes lines)) rfl
      refine ⟨_, hmoves.back.front opening, ?_⟩
      exact .of_eq (.brackets hopening h hclosing) (by simp)
  -- items
  | plain _ ih =>
      obtain ⟨s', hmoves, h⟩ := ih r' hr
      exact ⟨s', hmoves, .plain h⟩
  | @operated _ _ _ operand operator hatom hoperator ih =>
      obtain ⟨s', hmoves, h⟩ := ih (r'.cons (operator.shift bytes lines)) rfl
      refine ⟨s', hmoves.back, ?_⟩
      exact .of_eq (.operated h hoperator) (by simp [Child.span_shift hatom.ne_absent_of_atom])
  | @counted _ _ _ operand tilde count hatom htilde hcount ih =>
      obtain ⟨s', hmoves, h⟩ := ih ((r'.cons (count.shift bytes lines)).cons
        (tilde.shift bytes lines)) rfl
      refine ⟨s', hmoves.back.back, ?_⟩
      refine .of_eq (.counted h htilde hcount) ?_
      rw [← Child.shift_absent, countNode_shift hatom.ne_absent_of_atom]
      rfl
  | @countedUpTo _ _ _ operand tilde count dots upper hatom htilde hcount hdots hupper ih =>
      obtain ⟨s', hmoves, h⟩ := ih ((((r'.cons (upper.shift bytes lines)).cons
        (dots.shift bytes lines)).cons (count.shift bytes lines)).cons
          (tilde.shift bytes lines)) rfl
      refine ⟨s', hmoves.back.back.back.back, ?_⟩
      refine .of_eq (.countedUpTo h htilde hcount hdots hupper) ?_
      rw [← Child.shift_token, countNode_shift hatom.ne_absent_of_atom]
      rfl
  | noItem => exact ⟨r', .refl _ _, .noItem⟩
  | items _ _ ih ih' =>
      obtain ⟨m', hmoves', h'⟩ := ih' r' hr
      obtain ⟨s', hmoves, h⟩ := ih m' (hmoves'.aligned hr)
      exact ⟨s', hmoves.trans hmoves', .items h h'⟩
  -- alternatives
  | unnamed _ ih =>
      obtain ⟨s', hmoves, h⟩ := ih r' hr
      refine ⟨s', hmoves, .of_eq (.unnamed h) ?_⟩
      simp [unnamedNode, itemsNode_shift (hmoves.aligned hr)]
  | @named _ _ _ _ arrow target _ harrow htarget ih =>
      obtain ⟨s', hmoves, h⟩ := ih ((r'.cons (target.shift bytes lines)).cons
        (arrow.shift bytes lines)) rfl
      refine ⟨s', hmoves.back.back, .of_eq (.named h harrow htarget) ?_⟩
      simp [namedNode, itemsNode_shift (hmoves.aligned rfl)]
  | lastAlternative _ ih =>
      obtain ⟨s', hmoves, h⟩ := ih r' hr
      exact ⟨s', hmoves, .lastAlternative h⟩
  | @alternative _ _ _ m _ pipe _ _ _ hpipe _ ih ih' =>
      obtain ⟨m', hmoves', h'⟩ := ih' r' hr
      obtain ⟨s', hmoves, h⟩ := ih (m'.cons (pipe.shift bytes lines)) rfl
      exact ⟨s', hmoves.back.trans hmoves', .alternative h hpipe h'⟩
  | @expansions _ _ _ _ alternatives halternatives ih =>
      obtain ⟨s', hmoves, h⟩ := ih r' hr
      have hne : alternatives ≠ [] := by
        rintro rfl
        cases halternatives
      rw [map_tree_shift] at h
      refine ⟨s', hmoves, .of_eq (.expansions h) ?_⟩
      rw [expansionsNode_shift hne]
      rfl
  -- names, parameters and priorities
  | lastName ht => exact ⟨_, .token _ _ _, .lastName ht⟩
  | @name _ _ _ t sign _ _ _ ht hsign _ ih =>
      obtain ⟨s', hmoves, h⟩ := ih r' hr
      exact ⟨_, (hmoves.front sign).front t, .name ht hsign h⟩
  | noParams => exact ⟨r', .refl _ _, .noParams⟩
  | @params _ opening closing _ _ _ hopening _ hclosing ih =>
      obtain ⟨s', hmoves, h⟩ := ih (r'.cons (closing.shift bytes lines)) rfl
      refine ⟨_, hmoves.back.front opening, ?_⟩
      exact .of_eq (.params hopening h hclosing) (by simp)
  | noPriority => exact ⟨r', .refl _ _, .noPriority⟩
  | @priority _ dot number _ hdot hnumber =>
      exact ⟨_, (Moves.token number _ r').front dot, .priority hdot hnumber⟩
  -- definitions
  | @rule _ name colon _ _ _ _ params priority body hname _ _ hcolon _ ih₁ ih₂ ih₃ =>
      obtain ⟨s₃', hmoves₃, h₃⟩ := ih₃ r' hr
      obtain ⟨s₂', hmoves₂, h₂⟩ := ih₂ (s₃'.cons (colon.shift bytes lines)) rfl
      obtain ⟨s₁', hmoves₁, h₁⟩ := ih₁ s₂' (hmoves₂.aligned rfl)
      refine ⟨_, (hmoves₁.trans (hmoves₂.back.trans hmoves₃)).front name, ?_⟩
      exact .of_eq (.rule hname h₁ h₂ hcolon h₃) (by simp)
  | @term _ name colon _ _ _ priority body hname _ hcolon _ ih₁ ih₂ =>
      obtain ⟨s₂', hmoves₂, h₂⟩ := ih₂ r' hr
      obtain ⟨s₁', hmoves₁, h₁⟩ := ih₁ (s₂'.cons (colon.shift bytes lines)) rfl
      refine ⟨_, (hmoves₁.back.trans hmoves₂).front name, ?_⟩
      exact .of_eq (.term hname h₁ hcolon h₂) (by simp)
  -- directives
  | @path _ _ _ names hnames ih =>
      obtain ⟨s', hmoves, h⟩ := ih r' hr
      rw [map_token_shift] at h
      refine ⟨s', hmoves, .of_eq (.path h) ?_⟩
      have hcurrent := hmoves.current_eq hnames.length_add_least_le
      rw [hcurrent, Token.span_shift, List.map_singleton, Child.shift_tree, pathNode_shift,
        List.map_nil]
  | @relativePath _ dot _ _ names hdot hnames ih =>
      obtain ⟨s', hmoves, h⟩ := ih r' hr
      rw [map_token_shift] at h
      refine ⟨_, hmoves.front dot, .of_eq (.relativePath hdot h) ?_⟩
      rw [List.map_singleton, Child.shift_tree, pathNode_shift, List.map_singleton,
        Token.span_shift]
  | lastDeclared ht => exact ⟨_, .token _ _ _, .lastDeclared ht⟩
  | @declared _ t _ _ _ ht _ ih =>
      obtain ⟨s', hmoves, h⟩ := ih r' hr
      exact ⟨_, hmoves.front t, .declared ht h⟩
  | defines _ ih =>
      obtain ⟨s', hmoves, h⟩ := ih r' hr
      exact ⟨s', hmoves, .defines h⟩
  | @ignore _ directive _ _ _ hdirective _ ih =>
      obtain ⟨s', hmoves, h⟩ := ih r' hr
      exact ⟨_, hmoves.front directive, .of_eq (.ignore hdirective h) (by simp)⟩
  | @importPath _ directive _ _ _ hdirective _ ih =>
      obtain ⟨s', hmoves, h⟩ := ih r' hr
      exact ⟨_, hmoves.front directive, .of_eq (.importPath hdirective h) (by simp)⟩
  | @importAs _ directive arrow target _ _ _ hdirective _ harrow htarget ih =>
      obtain ⟨s', hmoves, h⟩ := ih ((r'.cons (target.shift bytes lines)).cons
        (arrow.shift bytes lines)) rfl
      refine ⟨_, hmoves.back.back.front directive, ?_⟩
      exact .of_eq (.importAs hdirective h harrow htarget) (by simp)
  | @importNames _ directive opening closing _ m _ _ _ hdirective _ hopening _ hclosing ih ih' =>
      obtain ⟨m', hmoves', h'⟩ := ih' (r'.cons (closing.shift bytes lines)) rfl
      obtain ⟨s', hmoves, h⟩ := ih (m'.cons (opening.shift bytes lines)) rfl
      refine ⟨_, (hmoves.back.trans hmoves'.back).front directive, ?_⟩
      exact .of_eq (.importNames hdirective h hopening h' hclosing) (by simp)
  | @declare _ directive first others _ _ hdirective _ ih =>
      obtain ⟨s', hmoves, h⟩ := ih r' hr
      rw [map_token_shift, List.map_cons] at h
      refine ⟨_, hmoves.front directive, .of_eq (.declare hdirective h) ?_⟩
      rw [getLastD_shift]
      simp
  | @override _ directive _ _ _ hdirective _ ih =>
      obtain ⟨s', hmoves, h⟩ := ih r' hr
      exact ⟨_, hmoves.front directive, .of_eq (.override hdirective h) (by simp)⟩
  | @extend _ directive _ _ _ hdirective _ ih =>
      obtain ⟨s', hmoves, h⟩ := ih r' hr
      exact ⟨_, hmoves.front directive, .of_eq (.extend hdirective h) (by simp)⟩
  -- lines
  | noLine => exact ⟨r', .refl _ _, .noLine⟩
  | @blankLine _ newline _ _ _ hnewline _ ih =>
      obtain ⟨s', hmoves, h⟩ := ih r' hr
      exact ⟨_, hmoves.front newline, .blankLine hnewline h⟩
  | @line _ newline _ _ _ _ _ _ hnewline _ ih ih' =>
      obtain ⟨m', hmoves', h'⟩ := ih' r' hr
      obtain ⟨s', hmoves, h⟩ := ih (m'.cons (newline.shift bytes lines)) rfl
      exact ⟨s', hmoves.back.trans hmoves', .line h hnewline h'⟩
  | lastLine _ ih =>
      obtain ⟨s', hmoves, h⟩ := ih r' hr
      exact ⟨s', hmoves, .lastLine h⟩

end Phrase

end GrammarCatalog
