/-
**The leaves of a tree are the tokens of its text.**

Parsing drops the tokens that only give structure: brackets, commas, bars, arrows, directives, line
breaks.  All others have content, and they are the leaves of the tree, in the order of the text,
with what they carry and where they stand; a dot in front of a path is a leaf besides.

Main definitions:

* `GrammarCatalog.Tree.leaves` — the tokens in the slots of a tree, from left to right;
* `GrammarCatalog.TokenKind.isContent` — the kinds that have content.

Main results:

* `GrammarCatalog.Phrase.Derives.keptAll_append_contents` — what a phrase takes is what it keeps;
* `GrammarCatalog.Tree.leaves_eq_contents` — **no content is lost, doubled or moved**.
-/

import Mathlib
import GrammarCatalog.Proofs.MetaGrammar.Acceptance

set_option relaxedAutoImplicit false
set_option autoImplicit false

namespace GrammarCatalog

/-- A kind that has content: names, literals, numbers, and the operators of one sign. -/
def TokenKind.isContent : TokenKind → Bool
  | rule _ | terminal _ | string _ _ | regexp _ _ | number _ => true
  | punctuation .question | punctuation .star | punctuation .plus => true
  | _ => false

theorem TokenKind.isContent_of_isValue {kind : TokenKind} (h : kind.isValue = true) :
    kind.isContent = true := by
  revert h
  cases kind <;> simp [isValue, isString, isRegexp, isName, isRule, isTerminal, isContent]

theorem TokenKind.isContent_of_isString {kind : TokenKind} (h : kind.isString = true) :
    kind.isContent = true := isContent_of_isValue (by simp [isValue, h])

theorem TokenKind.isContent_of_isName {kind : TokenKind} (h : kind.isName = true) :
    kind.isContent = true := isContent_of_isValue (by simp [isValue, h])

theorem TokenKind.isContent_of_isRule {kind : TokenKind} (h : kind.isRule = true) :
    kind.isContent = true := isContent_of_isName (by simp [isName, h])

theorem TokenKind.isContent_of_isTerminal {kind : TokenKind} (h : kind.isTerminal = true) :
    kind.isContent = true := isContent_of_isName (by simp [isName, h])

theorem TokenKind.isContent_of_isNumber {kind : TokenKind} (h : kind.isNumber = true) :
    kind.isContent = true := by
  revert h
  cases kind <;> simp [isNumber, isContent]

theorem TokenKind.isContent_of_isOperator {kind : TokenKind} (h : kind.isOperator = true) :
    kind.isContent = true := by
  unfold isOperator at h
  split at h <;> first | rfl | contradiction

/-! ### Leaves -/

mutual

/-- The tokens in the slots of a tree, from left to right. -/
def Tree.leaves : Tree → List Token
  | .node _ children _ => Child.leavesAll children

/-- The tokens in a slot. -/
def Child.leaves : Child → List Token
  | .tree node => node.leaves
  | .token leaf => [leaf]
  | .absent => []

/-- The tokens in a list of slots. -/
def Child.leavesAll : List Child → List Token
  | [] => []
  | child :: children => child.leaves ++ Child.leavesAll children

end

theorem Child.mem_leavesAll {slots : List Child} {leaf : Token} :
    leaf ∈ leavesAll slots ↔ ∃ slot ∈ slots, leaf ∈ slot.leaves := by
  induction slots with
  | nil => simp [leavesAll]
  | cons slot slots ih => simp [leavesAll, ih]

@[simp] theorem Tree.leaves_withSpan (tree : Tree) (span : Span) :
    (tree.withSpan span).leaves = tree.leaves := by
  cases tree
  rfl

/-! ### Contents -/

/-- The tokens that have content. -/
def contents (tokens : List Token) : List Token := tokens.filter (·.kind.isContent)

/-- The tokens other than dots. -/
def undotted (tokens : List Token) : List Token :=
  tokens.filter (·.kind != .punctuation .dot)

@[simp] theorem undotted_append (first second : List Token) :
    undotted (first ++ second) = undotted first ++ undotted second := List.filter_append ..

theorem contents_cons {t : Token} (ht : t.kind.isContent = true) (tokens : List Token) :
    contents (t :: tokens) = t :: contents tokens := List.filter_cons_of_pos ht

theorem contents_cons_of_not {t : Token} (ht : t.kind.isContent = false) (tokens : List Token) :
    contents (t :: tokens) = contents tokens := List.filter_cons_of_neg (by simp [ht])

/-- A token with content is no dot. -/
theorem undotted_cons {t : Token} (ht : t.kind.isContent = true) (tokens : List Token) :
    undotted (t :: tokens) = t :: undotted tokens := by
  refine List.filter_cons_of_pos ?_
  have hdot : t.kind ≠ .punctuation .dot := by
    intro h
    simp [h, TokenKind.isContent] at ht
  simpa using hdot

/-- A sign that only gives structure is dropped. -/
theorem contents_cons_sign {t : Token} {which : Punctuation} (ht : t.kind = .punctuation which)
    (hwhich : (TokenKind.punctuation which).isContent = false) (tokens : List Token) :
    contents (t :: tokens) = contents tokens := contents_cons_of_not (by rw [ht, hwhich]) tokens

theorem contents_cons_directive {t : Token} {which : Directive}
    (ht : t.kind.isDirective which = true) (tokens : List Token) :
    contents (t :: tokens) = contents tokens := by
  have hkind : t.kind = .directive which.name := by simpa [TokenKind.isDirective] using ht
  exact contents_cons_of_not (by rw [hkind]; rfl) tokens

namespace Child

/-- The leaves of a slot, dots left out. -/
def kept (slot : Child) : List Token := undotted slot.leaves

/-- The leaves of slots, dots left out. -/
def keptAll (slots : List Child) : List Token := undotted (leavesAll slots)

@[simp] theorem keptAll_nil : keptAll [] = [] := rfl

@[simp] theorem keptAll_cons (slot : Child) (slots : List Child) :
    keptAll (slot :: slots) = slot.kept ++ keptAll slots := by
  simp [keptAll, kept, leavesAll]

@[simp] theorem kept_absent : absent.kept = [] := rfl

@[simp] theorem kept_node (kind : NodeKind) (slots : List Child) (span : Span) :
    (tree (.node kind slots span)).kept = keptAll slots := rfl

@[simp] theorem kept_withSpan (node : Tree) (span : Span) :
    (tree (node.withSpan span)).kept = (tree node).kept := by
  simp [kept, leaves]

theorem kept_token {t : Token} (ht : t.kind.isContent = true) : (token t).kept = [t] :=
  undotted_cons ht []

theorem kept_dot {t : Token} (ht : t.kind = .punctuation .dot) : (token t).kept = [] := by
  simp [kept, leaves, undotted, ht]

end Child

namespace Phrase

/-- The lists of names that occur in grammar texts. -/
def Occurs : Phrase → Prop
  | names separator suits =>
      (TokenKind.punctuation separator).isContent = false ∧
        ∀ kind, suits kind = true → kind.isName = true
  | _ => True

theorem Derives.keptAll_append_contents {phrase : Phrase} {n : ℕ} {s r : TokenStream}
    {slots : List Child} (h : phrase.Derives n s r slots) (hoccurs : phrase.Occurs) :
    Child.keptAll slots ++ contents r.toList = contents s.toList := by
  induction h with
  | token ht =>
      have ht := TokenKind.isContent_of_isValue ht
      simp [Child.kept_token ht, contents_cons ht]
  | range hlow hdots hhigh =>
      have hlow := TokenKind.isContent_of_isString hlow
      have hhigh := TokenKind.isContent_of_isString hhigh
      simp [Child.kept_token hlow, Child.kept_token hhigh, contents_cons hlow,
        contents_cons_sign hdots rfl, contents_cons hhigh]
  | usage hname hopening _ hclosing ih =>
      have hname := TokenKind.isContent_of_isRule hname
      have ih := ih trivial
      rw [TokenStream.toList_cons, contents_cons_sign hclosing rfl] at ih
      simp [Child.kept_token hname, contents_cons hname, contents_cons_sign hopening rfl, ih]
  | lastArgument _ ih => exact ih trivial
  | argument _ hcomma _ ih ih' =>
      have ih := ih trivial
      rw [TokenStream.toList_cons, contents_cons_sign hcomma rfl, ← ih' trivial] at ih
      simpa using ih
  | single _ ih => exact ih trivial
  | parens hopening _ hclosing ih =>
      have ih := ih trivial
      rw [TokenStream.toList_cons, contents_cons_sign hclosing rfl] at ih
      simpa [contents_cons_sign hopening rfl] using ih
  | brackets hopening _ hclosing ih =>
      have ih := ih trivial
      rw [TokenStream.toList_cons, contents_cons_sign hclosing rfl] at ih
      simpa [contents_cons_sign hopening rfl] using ih
  | plain _ ih => exact ih trivial
  | operated _ hoperator ih =>
      have hoperator := TokenKind.isContent_of_isOperator hoperator
      have ih := ih trivial
      rw [TokenStream.toList_cons, contents_cons hoperator] at ih
      simpa [Child.kept_token hoperator] using ih
  | counted _ htilde hcount ih =>
      have hcount := TokenKind.isContent_of_isNumber hcount
      have ih := ih trivial
      rw [TokenStream.toList_cons, contents_cons_sign htilde rfl, TokenStream.toList_cons,
        contents_cons hcount] at ih
      simpa [countNode, Child.kept_token hcount] using ih
  | countedUpTo _ htilde hcount hdots hupper ih =>
      have hcount := TokenKind.isContent_of_isNumber hcount
      have hupper := TokenKind.isContent_of_isNumber hupper
      have ih := ih trivial
      rw [TokenStream.toList_cons, contents_cons_sign htilde rfl, TokenStream.toList_cons,
        contents_cons hcount, TokenStream.toList_cons, contents_cons_sign hdots rfl,
        TokenStream.toList_cons, contents_cons hupper] at ih
      simpa [countNode, Child.kept_token hcount, Child.kept_token hupper] using ih
  | noItem => rfl
  | items _ _ ih ih' =>
      rw [← ih trivial, ← ih' trivial]
      simp
  | unnamed _ ih => simpa [unnamedNode, itemsNode] using ih trivial
  | named _ harrow htarget ih =>
      have htarget := TokenKind.isContent_of_isRule htarget
      have ih := ih trivial
      rw [TokenStream.toList_cons, contents_cons_sign harrow rfl, TokenStream.toList_cons,
        contents_cons htarget] at ih
      simpa [namedNode, itemsNode, Child.kept_token htarget] using ih
  | lastAlternative _ ih => exact ih trivial
  | alternative _ hpipe _ ih ih' =>
      have ih := ih trivial
      rw [TokenStream.toList_cons, contents_cons_sign hpipe rfl, ← ih' trivial] at ih
      simpa using ih
  | expansions _ ih => simpa [Parse.expansionsNode] using ih trivial
  | lastName ht =>
      have ht := TokenKind.isContent_of_isName (hoccurs.2 _ ht)
      simp [Child.kept_token ht, contents_cons ht]
  | name ht hsign _ ih =>
      have ht := TokenKind.isContent_of_isName (hoccurs.2 _ ht)
      simp [Child.kept_token ht, contents_cons ht, contents_cons_sign hsign hoccurs.1, ih hoccurs]
  | noParams => rfl
  | params hopening _ hclosing ih =>
      have ih := ih ⟨rfl, fun kind hkind => by simp [TokenKind.isName, hkind]⟩
      rw [TokenStream.toList_cons, contents_cons_sign hclosing rfl] at ih
      simpa [contents_cons_sign hopening rfl] using ih
  | noPriority => rfl
  | priority hdot hnumber =>
      have hnumber := TokenKind.isContent_of_isNumber hnumber
      simp [Child.kept_token hnumber, contents_cons hnumber, contents_cons_sign hdot rfl]
  | rule hname _ _ hcolon _ ihparams ihpriority ihbody =>
      have hname := TokenKind.isContent_of_isRule hname
      have ihpriority := ihpriority trivial
      rw [TokenStream.toList_cons, contents_cons_sign hcolon rfl, ← ihbody trivial] at ihpriority
      simp [Child.kept_token hname, contents_cons hname, ← ihparams trivial, ← ihpriority]
  | term hname _ hcolon _ ihpriority ihbody =>
      have hname := TokenKind.isContent_of_isTerminal hname
      have ihpriority := ihpriority trivial
      rw [TokenStream.toList_cons, contents_cons_sign hcolon rfl, ← ihbody trivial] at ihpriority
      simp [Child.kept_token hname, contents_cons hname, ← ihpriority]
  | path _ ih => simpa [pathNode] using ih ⟨rfl, fun kind hkind => hkind⟩
  | relativePath hdot _ ih =>
      have ih := ih ⟨rfl, fun kind hkind => hkind⟩
      simpa [pathNode, Child.kept_dot hdot, contents_cons_sign hdot rfl] using ih
  | lastDeclared ht =>
      have ht := TokenKind.isContent_of_isName ht
      simp [Child.kept_token ht, contents_cons ht]
  | declared ht _ ih =>
      have ht := TokenKind.isContent_of_isName ht
      simp [Child.kept_token ht, contents_cons ht, ih trivial]
  | defines _ ih => exact ih trivial
  | ignore hdirective _ ih =>
      simpa [contents_cons_directive hdirective] using ih trivial
  | importPath hdirective _ ih =>
      simpa [contents_cons_directive hdirective] using ih trivial
  | importAs hdirective _ harrow htarget ih =>
      have htarget := TokenKind.isContent_of_isName htarget
      have ih := ih trivial
      rw [TokenStream.toList_cons, contents_cons_sign harrow rfl, TokenStream.toList_cons,
        contents_cons htarget] at ih
      simpa [contents_cons_directive hdirective, Child.kept_token htarget] using ih
  | importNames hdirective _ hopening _ hclosing ihpath ihnames =>
      have ihpath := ihpath trivial
      have ihnames := ihnames ⟨rfl, fun kind hkind => hkind⟩
      rw [TokenStream.toList_cons, contents_cons_sign hclosing rfl] at ihnames
      rw [TokenStream.toList_cons, contents_cons_sign hopening rfl, ← ihnames] at ihpath
      simpa [contents_cons_directive hdirective] using ihpath
  | declare hdirective _ ih =>
      simpa [contents_cons_directive hdirective] using ih trivial
  | override hdirective _ ih =>
      simpa [contents_cons_directive hdirective] using ih trivial
  | extend hdirective _ ih =>
      simpa [contents_cons_directive hdirective] using ih trivial
  | noLine => rfl
  | blankLine hnewline _ ih =>
      rw [TokenStream.toList_cons, contents_cons_of_not (by rw [hnewline]; rfl)]
      exact ih trivial
  | line _ hnewline _ ih ih' =>
      have ih := ih trivial
      rw [TokenStream.toList_cons, contents_cons_of_not (by rw [hnewline]; rfl),
        ← ih' trivial] at ih
      simpa using ih
  | lastLine _ ih => exact ih trivial

end Phrase

namespace Tree

theorem contents_significant (source : String) :
    contents (Token.significant source) = contents (Token.ofSource source) := by
  unfold contents Token.significant
  rw [List.filter_filter]
  refine List.filter_congr fun token _ => ?_
  cases token.kind <;> simp [TokenKind.isContent, TokenKind.isTrivia]

/-- **No content is lost, doubled or moved**: the leaves of the tree of a text, dots left out, are
the tokens of the text that have content, with what they carry and where they stand. -/
theorem leaves_eq_contents {source : String} {tree : Tree} (h : ofSource source = .ok tree) :
    undotted tree.leaves = contents (Token.ofSource source) := by
  obtain ⟨trees, r, rfl, hderives, hr⟩ := ofSource_eq_ok_iff.1 h
  have hs := TokenStream.terminated_ofSource source
  have hahead : r.ahead = [] := (hs.of_suffix hderives.suffix).current_iff.1 hr
  have hend : contents r.toList = [] := by
    rw [TokenStream.toList, hahead, contents_cons_of_not (by rw [hr]; rfl)]
    rfl
  have hkept := hderives.keptAll_append_contents trivial
  rw [hend, List.append_nil, TokenStream.toList_ofSource, contents_significant] at hkept
  exact hkept

/-- The dot of a relative import is a leaf, but has no content. -/
theorem leaves_relativeImport :
    ∃ tree, ofSource "%import .a" = .ok tree ∧
      tree.leaves.map Token.kind = [.punctuation .dot, .rule "a"] ∧
      undotted tree.leaves = contents (Token.ofSource "%import .a") := by
  have h : ofSource "%import .a" = .ok
      (.node .start
        [.tree (.node .importing
          [.tree (.node .importPath
            [.token ⟨.punctuation .dot, ⟨8, 9, 1, 9⟩⟩, .token ⟨.rule "a", ⟨9, 10, 1, 10⟩⟩]
            ⟨8, 10, 1, 9⟩), .absent] ⟨0, 10, 1, 1⟩)]
        ⟨0, 10, 1, 1⟩) := by cbv
  exact ⟨_, h, rfl, leaves_eq_contents h⟩

end Tree

end GrammarCatalog
