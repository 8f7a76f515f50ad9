/-
**Derivations of trees.**

A derivation says which tree slots a phrase of the meta-grammar makes of the tokens from one
stream up to another.  There is one way of deriving for each rule of the meta-grammar, and it tells
the whole tree, spans included; the tokens that a phrase drops, such as brackets and commas, show
in the streams alone.  What holds of all trees of grammar texts is proved by induction on
derivations, without a look at the parsers.

Main definitions:

* `GrammarCatalog.Phrase` — the phrases of the meta-grammar;
* `GrammarCatalog.Phrase.Derives` — **derivations**: the phrase, the depth to which groups and
  arguments may be nested, the stream where the phrase begins, the stream behind it, and the slots.

Main results:

* `GrammarCatalog.Phrase.Derives.length_add_least_le` — how many tokens a phrase takes at least;
* `GrammarCatalog.Phrase.Derives.startsItem_of_item` — the first token of an item is one that
  begins items.
-/

import GrammarCatalog.Proofs.MetaGrammar.Spelled

set_option relaxedAutoImplicit false
set_option autoImplicit false

namespace GrammarCatalog

namespace TokenKind

/-- A token that is a value by itself. -/
def isValue (kind : TokenKind) : Bool := kind.isString || kind.isRegexp || kind.isName

/-- An operator of one sign. -/
def isOperator : TokenKind → Bool
  | punctuation .question | punctuation .star | punctuation .plus => true
  | _ => false

end TokenKind

/-- The phrases of the meta-grammar. -/
inductive Phrase where
  /-- A value. -/
  | value
  /-- Values with commas between them. -/
  | arguments
  /-- A value or a group. -/
  | atom
  /-- An atom with an operator or without. -/
  | item
  /-- The items of one alternative. -/
  | items
  /-- One alternative. -/
  | alternative (aliases : Bool)
  /-- Alternatives, slot by slot. -/
  | alternatives (aliases : Bool)
  /-- Alternatives as one node. -/
  | expansions (aliases : Bool)
  /-- Names of a class with a sign between them. -/
  | names (separator : Punctuation) (suits : TokenKind → Bool)
  /-- The parameters of a rule, or nothing. -/
  | params
  /-- The priority of a definition, or nothing. -/
  | priority
  /-- A rule or a terminal. -/
  | definition
  /-- The path of an import. -/
  | path
  /-- Names one behind the other. -/
  | declared
  /-- A definition or a directive. -/
  | statement
  /-- Statements with their line breaks. -/
  | lines

namespace Phrase

/-- The node of the items of one alternative, which starts where the alternative does. -/
def itemsNode (start : Span) (items : List Child) : Tree :=
  .node .expansion items (items.foldl (fun span child => span.merge child.span) start.collapse)

/-- The node of one alternative without an alias. -/
def unnamedNode (start : Span) (items : List Child) : Tree :=
  .node .alternative [.tree (itemsNode start items), .absent] (itemsNode start items).span

/-- The node of one alternative with its alias. -/
def namedNode (start : Span) (items : List Child) (target : Token) : Tree :=
  .node .alternative [.tree (itemsNode start items), .token target]
    ((itemsNode start items).span.merge target.span)

/-- The node of an item with a count, and with an upper count or nothing. -/
def countNode (operand : Child) (count : Token) (upper : Child) : Tree :=
  .node .expr [operand, .token count, upper]
    ((operand.span.merge count.span).merge upper.span)

/-- The node of a path that starts at the given span. -/
def pathNode (start : Span) (relative names : List Token) : Tree :=
  .node .importPath ((relative ++ names).map .token)
    (start.merge (names.getLastD ⟨.endOfInput, start⟩).span)

/-- **Derivations**: the slots that a phrase makes of the tokens from a stream up to another. -/
inductive Derives : Phrase → ℕ → TokenStream → TokenStream → List Child → Prop
  -- values and their arguments
  | token {n : ℕ} {t : Token} {r : TokenStream} (ht : t.kind.isValue = true) :
      Derives .value n (r.cons t) r [.token t]
  | range {n : ℕ} {low dots high : Token} {r : TokenStream} (hlow : low.kind.isString = true)
      (hdots : dots.kind = .punctuation .dotDot) (hhigh : high.kind.isString = true) :
      Derives .value n (((r.cons high).cons dots).cons low) r
        [.tree (.node .range [.token low, .token high] (low.span.merge high.span))]
  | usage {n : ℕ} {name opening closing : Token} {s r : TokenStream} {arguments : List Child}
      (hname : name.kind.isRule = true) (hopening : opening.kind = .punctuation .leftBrace)
      (harguments : Derives .arguments n s (r.cons closing) arguments)
      (hclosing : closing.kind = .punctuation .rightBrace) :
      Derives .value (n + 1) ((s.cons opening).cons name) r
        [.tree (.node .templateUsage (.token name :: arguments) (name.span.merge closing.span))]
  | lastArgument {n : ℕ} {s r : TokenStream} {argument : Child}
      (h : Derives .value n s r [argument]) : Derives .arguments n s r [argument]
  | argument {n : ℕ} {s m r : TokenStream} {comma : Token} {argument : Child}
      {arguments : List Child} (h : Derives .value n s (m.cons comma) [argument])
      (hcomma : comma.kind = .punctuation .comma)
      (harguments : Derives .arguments n m r arguments) :
      Derives .arguments n s r (argument :: arguments)
  -- groups
  | single {n : ℕ} {s r : TokenStream} {value : Child} (h : Derives .value n s r [value]) :
      Derives .atom n s r [value]
  | parens {n : ℕ} {opening closing : Token} {s r : TokenStream} {body : Tree}
      (hopening : opening.kind = .punctuation .leftParen)
      (hbody : Derives (.expansions true) n s (r.cons closing) [.tree body])
      (hclosing : closing.kind = .punctuation .rightParen) :
      Derives .atom (n + 1) (s.cons opening) r
        [.tree (body.withSpan (opening.span.merge closing.span))]
  | brackets {n : ℕ} {opening closing : Token} {s r : TokenStream} {body : Tree}
      (hopening : opening.kind = .punctuation .leftBracket)
      (hbody : Derives (.expansions true) n s (r.cons closing) [.tree body])
      (hclosing : closing.kind = .punctuation .rightBracket) :
      Derives .atom (n + 1) (s.cons opening) r
        [.tree (.node .maybe [.tree body] (opening.span.merge closing.span))]
  -- items
  | plain {n : ℕ} {s r : TokenStream} {operand : Child} (h : Derives .atom n s r [operand]) :
      Derives .item n s r [operand]
  | operated {n : ℕ} {s r : TokenStream} {operand : Child} {operator : Token}
      (h : Derives .atom n s (r.cons operator) [operand])
      (hoperator : operator.kind.isOperator = true) :
      Derives .item n s r
        [.tree (.node .expr [operand, .token operator] (operand.span.merge operator.span))]
  | counted {n : ℕ} {s r : TokenStream} {operand : Child} {tilde count : Token}
      (h : Derives .atom n s ((r.cons count).cons tilde) [operand])
      (htilde : tilde.kind = .punctuation .tilde) (hcount : count.kind.isNumber = true) :
      Derives .item n s r [.tree (countNode operand count .absent)]
  | countedUpTo {n : ℕ} {s r : TokenStream} {operand : Child} {tilde count dots upper : Token}
      (h : Derives .atom n s ((((r.cons upper).cons dots).cons count).cons tilde) [operand])
      (htilde : tilde.kind = .punctuation .tilde) (hcount : count.kind.isNumber = true)
      (hdots : dots.kind = .punctuation .dotDot) (hupper : upper.kind.isNumber = true) :
      Derives .item n s r [.tree (countNode operand count (.token upper))]
  | noItem {n : ℕ} {r : TokenStream} : Derives .items n r r []
  | items {n : ℕ} {s m r : TokenStream} {item : Child} {items : List Child}
      (h : Derives .item n s m [item]) (hitems : Derives .items n m r items) :
      Derives .items n s r (item :: items)
  -- alternatives
  | unnamed {n : ℕ} {aliases : Bool} {s r : TokenStream} {items : List Child}
      (h : Derives .items n s r items) :
      Derives (.alternative aliases) n s r [.tree (unnamedNode s.current.span items)]
  | named {n : ℕ} {s r : TokenStream} {items : List Child} {arrow target : Token}
      (h : Derives .items n s ((r.cons target).cons arrow) items)
      (harrow : arrow.kind = .punctuation .arrow) (htarget : target.kind.isRule = true) :
      Derives (.alternative true) n s r [.tree (namedNode s.current.span items target)]
  | lastAlternative {n : ℕ} {aliases : Bool} {s r : TokenStream} {alternative : Child}
      (h : Derives (.alternative aliases) n s r [alternative]) :
      Derives (.alternatives aliases) n s r [alternative]
  | alternative {n : ℕ} {aliases : Bool} {s m r : TokenStream} {pipe : Token}
      {alternative : Child} {alternatives : List Child}
      (h : Derives (.alternative aliases) n s (m.cons pipe) [alternative])
      (hpipe : pipe.kind = .punctuation .pipe)
      (halternatives : Derives (.alternatives aliases) n m r alternatives) :
      Derives (.alternatives aliases) n s r (alternative :: alternatives)
  | expansions {n : ℕ} {aliases : Bool} {s r : TokenStream} {alternatives : List Tree}
      (h : Derives (.alternatives aliases) n s r (alternatives.map .tree)) :
      Derives (.expansions aliases) n s r [.tree (Parse.expansionsNode alternatives)]
  -- names, parameters and priorities
  | lastName {n : ℕ} {separator : Punctuation} {suits : TokenKind → Bool} {t : Token}
      {r : TokenStream} (ht : suits t.kind = true) :
      Derives (.names separator suits) n (r.cons t) r [.token t]
  | name {n : ℕ} {separator : Punctuation} {suits : TokenKind → Bool} {t sign : Token}
      {s r : TokenStream} {names : List Child} (ht : suits t.kind = true)
      (hsign : sign.kind = .punctuation separator)
      (hnames : Derives (.names separator suits) n s r names) :
      Derives (.names separator suits) n ((s.cons sign).cons t) r (.token t :: names)
  | noParams {n : ℕ} {r : TokenStream} : Derives .params n r r [.absent]
  | params {n : ℕ} {opening closing : Token} {s r : TokenStream} {names : List Child}
      (hopening : opening.kind = .punctuation .leftBrace)
      (hnames : Derives (.names .comma TokenKind.isRule) n s (r.cons closing) names)
      (hclosing : closing.kind = .punctuation .rightBrace) :
      Derives .params n (s.cons opening) r
        [.tree (.node .templateParams names (opening.span.merge closing.span))]
  | noPriority {n : ℕ} {r : TokenStream} : Derives .priority n r r [.absent]
  | priority {n : ℕ} {dot number : Token} {r : TokenStream}
      (hdot : dot.kind = .punctuation .dot) (hnumber : number.kind.isNumber = true) :
      Derives .priority n ((r.cons number).cons dot) r [.token number]
  -- definitions
  | rule {n : ℕ} {name colon : Token} {s₁ s₂ s₃ r : TokenStream} {params priority : Child}
      {body : Tree} (hname : name.kind.isRule = true) (hparams : Derives .params n s₁ s₂ [params])
      (hpriority : Derives .priority n s₂ (s₃.cons colon) [priority])
      (hcolon : colon.kind = .punctuation .colon)
      (hbody : Derives (.expansions true) n s₃ r [.tree body]) :
      Derives .definition n (s₁.cons name) r
        [.tree (.node .rule [.token name, params, priority, .tree body]
          (name.span.merge body.span))]
  | term {n : ℕ} {name colon : Token} {s₁ s₂ r : TokenStream} {priority : Child} {body : Tree}
      (hname : name.kind.isTerminal = true)
      (hpriority : Derives .priority n s₁ (s₂.cons colon) [priority])
      (hcolon : colon.kind = .punctuation .colon)
      (hbody : Derives (.expansions false) n s₂ r [.tree body]) :
      Derives .definition n (s₁.cons name) r
        [.tree (.node .term [.token name, priority, .tree body] (name.span.merge body.span))]
  -- directives
  | path {n : ℕ} {s r : TokenStream} {names : List Token}
      (h : Derives (.names .dot TokenKind.isName) n s r (names.map .token)) :
      Derives .path n s r [.tree (pathNode s.current.span [] names)]
  | relativePath {n : ℕ} {dot : Token} {s r : TokenStream} {names : List Token}
      (hdot : dot.kind = .punctuation .dot)
      (h : Derives (.names .dot TokenKind.isName) n s r (names.map .token)) :
      Derives .path n (s.cons dot) r [.tree (pathNode dot.span [dot] names)]
  | lastDeclared {n : ℕ} {t : Token} {r : TokenStream} (ht : t.kind.isName = true) :
      Derives .declared n (r.cons t) r [.token t]
  | declared {n : ℕ} {t : Token} {s r : TokenStream} {names : List Child}
      (ht : t.kind.isName = true) (hnames : Derives .declared n s r names) :
      Derives .declared n (s.cons t) r (.token t :: names)
  | defines {n : ℕ} {s r : TokenStream} {definition : Tree}
      (h : Derives .definition n s r [.tree definition]) :
      Derives .statement n s r [.tree definition]
  | ignore {n : ℕ} {directive : Token} {s r : TokenStream} {body : Tree}
      (hdirective : directive.kind.isDirective .ignore = true)
      (hbody : Derives (.expansions false) n s r [.tree body]) :
      Derives .statement n (s.cons directive) r
        [.tree (.node .ignore [.tree body] (directive.span.merge body.span))]
  | importPath {n : ℕ} {directive : Token} {s r : TokenStream} {path : Tree}
      (hdirective : directive.kind.isDirective .importing = true)
      (hpath : Derives .path n s r [.tree path]) :
      Derives .statement n (s.cons directive) r
        [.tree (.node .importing [.tree path, .absent] (directive.span.merge path.span))]
  | importAs {n : ℕ} {directive arrow target : Token} {s r : TokenStream} {path : Tree}
      (hdirective : directive.kind.isDirective .importing = true)
      (hpath : Derives .path n s ((r.cons target).cons arrow) [.tree path])
      (harrow : arrow.kind = .punctuation .arrow) (htarget : target.kind.isName = true) :
      Derives .statement n (s.cons directive) r
        [.tree (.node .importing [.tree path, .token target]
          ((directive.span.merge path.span).merge target.span))]
  | importNames {n : ℕ} {directive opening closing : Token} {s m r : TokenStream} {path : Tree}
      {names : List Child} (hdirective : directive.kind.isDirective .importing = true)
      (hpath : Derives .path n s (m.cons opening) [.tree path])
      (hopening : opening.kind = .punctuation .leftParen)
      (hnames : Derives (.names .comma TokenKind.isName) n m (r.cons closing) names)
      (hclosing : closing.kind = .punctuation .rightParen) :
      Derives .statement n (s.cons directive) r
        [.tree (.node .multiImport (.tree path :: names)
          ((directive.span.merge path.span).merge closing.span))]
  | declare {n : ℕ} {directive first : Token} {others : List Token} {s r : TokenStream}
      (hdirective : directive.kind.isDirective .declare = true)
      (hnames : Derives .declared n s r ((first :: others).map .token)) :
      Derives .statement n (s.cons directive) r
        [.tree (.node .declare ((first :: others).map .token)
          (directive.span.merge (others.getLastD first).span))]
  | override {n : ℕ} {directive : Token} {s r : TokenStream} {body : Tree}
      (hdirective : directive.kind.isDirective .override = true)
      (hbody : Derives .definition n s r [.tree body]) :
      Derives .statement n (s.cons directive) r
        [.tree (.node .override [.tree body] (directive.span.merge body.span))]
  | extend {n : ℕ} {directive : Token} {s r : TokenStream} {body : Tree}
      (hdirective : directive.kind.isDirective .extend = true)
      (hbody : Derives .definition n s r [.tree body]) :
      Derives .statement n (s.cons directive) r
        [.tree (.node .extend [.tree body] (directive.span.merge body.span))]
  -- lines
  | noLine {n : ℕ} {r : TokenStream} : Derives .lines n r r []
  | blankLine {n : ℕ} {newline : Token} {s r : TokenStream} {statements : List Child}
      (hnewline : newline.kind = .newline) (h : Derives .lines n s r statements) :
      Derives .lines n (s.cons newline) r statements
  | line {n : ℕ} {newline : Token} {s m r : TokenStream} {statement : Child}
      {statements : List Child} (h : Derives .statement n s (m.cons newline) [statement])
      (hnewline : newline.kind = .newline) (hlines : Derives .lines n m r statements) :
      Derives .lines n s r (statement :: statements)
  | lastLine {n : ℕ} {s r : TokenStream} {statement : Child}
      (h : Derives .statement n s r [statement]) : Derives .lines n s r [statement]

/-- The least number of tokens that a phrase takes. -/
def least : Phrase → ℕ
  | items | alternative _ | alternatives _ | expansions _ | params | priority | lines => 0
  | _ => 1

namespace Derives

variable {n : ℕ} {s r : TokenStream} {slots : List Child}

/-- What a phrase takes, it takes from the stream. -/
theorem length_add_least_le {phrase : Phrase} (h : phrase.Derives n s r slots) :
    r.toList.length + phrase.least ≤ s.toList.length := by
  induction h with
  | _ => simp only [TokenStream.toList_cons, List.length_cons, least] at *; omega

/-- The slots of a list of names are tokens. -/
theorem exists_tokens {separator : Punctuation} {suits : TokenKind → Bool}
    (h : Derives (.names separator suits) n s r slots) :
    ∃ names : List Token, slots = names.map .token := by
  induction slots generalizing s with
  | nil => exact ⟨[], rfl⟩
  | cons slot slots ih =>
      cases h with
      | @lastName _ _ _ t _ _ => exact ⟨[t], rfl⟩
      | @name _ _ _ t _ _ _ _ _ _ hnames =>
          obtain ⟨names, rfl⟩ := ih hnames
          exact ⟨t :: names, rfl⟩

/-! ### First tokens -/

theorem startsItem_of_value (h : Derives .value n s r slots) :
    Parse.startsItem s.current.kind = true := by
  have hvalue : s.current.kind.isValue = true := by
    cases h with
    | token ht => exact ht
    | range hlow _ _ => simp [TokenKind.isValue, hlow]
    | usage hname _ _ _ => simp [TokenKind.isValue, TokenKind.isName, hname]
  revert hvalue
  cases s.current.kind <;> simp [TokenKind.isValue, TokenKind.isString, TokenKind.isRegexp,
    TokenKind.isName, TokenKind.isRule, TokenKind.isTerminal, Parse.startsItem]

theorem startsItem_of_atom (h : Derives .atom n s r slots) :
    Parse.startsItem s.current.kind = true := by
  cases h with
  | single h => exact startsItem_of_value h
  | parens hopening _ _ => simp [hopening, Parse.startsItem]
  | brackets hopening _ _ => simp [hopening, Parse.startsItem]

/-- The first token of an item is one that begins items. -/
theorem startsItem_of_item (h : Derives .item n s r slots) :
    Parse.startsItem s.current.kind = true := by
  cases h with
  | plain h => exact startsItem_of_atom h
  | operated h _ => exact startsItem_of_atom h
  | counted h _ _ => exact startsItem_of_atom h
  | countedUpTo h _ _ _ _ => exact startsItem_of_atom h

end Derives

end Phrase

end GrammarCatalog
