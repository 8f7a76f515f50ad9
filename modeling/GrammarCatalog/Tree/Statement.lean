/-
**Statements and grammars.**

A statement defines a rule or a terminal, or is a directive, and ends with its line or with the
text.  A grammar is a list of statements; line breaks without a statement are passed over.

Main definitions:

* `GrammarCatalog.Parse.definition` — a rule or a terminal;
* `GrammarCatalog.Parse.statement` — a definition or a directive;
* `GrammarCatalog.Parse.grammar` — all statements of a text.
-/

import GrammarCatalog.Tree.Expansions

set_option relaxedAutoImplicit false
set_option autoImplicit false

namespace GrammarCatalog.Parse

variable {σ : Type} [TokenSource σ]

/-! ### Definitions -/

/-- The parameters of a rule, in braces. -/
def templateParams : Parse σ Child := do
  if (← kind) == .punctuation .leftBrace then
    let opening ← take
    let names ← separated .comma ruleName
    let closing ← sign .rightBrace
    return .tree
      (.node .templateParams (names.map .token) (opening.span.merge closing.span))
  else
    return .absent

/-- The priority of a definition: a dot and an integer. -/
def priority : Parse σ Child := do
  if (← kind) == .punctuation .dot then
    let _ ← take
    return .token (← number)
  else
    return .absent

/-- A rule: its name, parameters, priority and alternatives, which may have aliases. -/
def rule : Parse σ Tree := do
  let name ← take
  let params ← templateParams
  let priority ← priority
  let _ ← sign .colon
  let body ← expansions maxNesting true
  return .node .rule [.token name, params, priority, .tree body] (name.span.merge body.span)

/-- A terminal: its name, priority and alternatives. -/
def term : Parse σ Tree := do
  let name ← take
  let priority ← priority
  let _ ← sign .colon
  let body ← expansions maxNesting false
  return .node .term [.token name, priority, .tree body] (name.span.merge body.span)

/-- A rule or a terminal. -/
def definition (expected : Expectation) : Parse σ Tree := do
  match ← kind with
  | .rule _ => rule
  | .terminal _ => term
  | _ => unexpected expected

/-! ### Directives -/

/-- The path of an import: names with dots between them, and a dot before them if it is
relative. -/
def importPath : Parse σ Tree := do
  let start := (← current).span
  let relative ←
    if (← kind) == .punctuation .dot then
      pure [← take]
    else
      pure []
  let names ← separated .dot name
  let last := names.getLastD ⟨.endOfInput, start⟩
  return .node .importPath ((relative ++ names).map .token) (start.merge last.span)

/-- What is imported: a path alone, with a new name, or with several names in parentheses. -/
def imported (start : Span) : Parse σ Tree := do
  let path ← importPath
  let span := start.merge path.span
  match ← kind with
  | .punctuation .leftParen =>
      let _ ← take
      let names ← separated .comma name
      let closing ← sign .rightParen
      return .node .multiImport (.tree path :: names.map .token) (span.merge closing.span)
  | .punctuation .arrow =>
      let _ ← take
      let target ← name
      return .node .importing [.tree path, .token target] (span.merge target.span)
  | _ => return .node .importing [.tree path, .absent] span

/-- The names that are declared, one at least. -/
def declared (start : Span) : Parse σ Tree := do
  let first ← name
  let others ← many (fun kind => !kind.endsStatement) name
  let last := others.getLastD first
  return .node .declare ((first :: others).map .token) (start.merge last.span)

/-- A definition behind a directive. -/
def redefinition (node : NodeKind) (directive : Directive) (start : Span) : Parse σ Tree := do
  let body ← definition (.definitionAfter directive.name)
  return .node node [.tree body] (start.merge body.span)

/-- A directive and what belongs to it. -/
def directive (name : String) : Parse σ Tree := do
  match Directive.ofName? name with
  | none => refuse (.unknownDirective name)
  | some directive =>
      let start := (← take).span
      match directive with
      | .ignore =>
          let body ← expansions maxNesting false
          return .node .ignore [.tree body] (start.merge body.span)
      | .importing => imported start
      | .declare => declared start
      | .override => redefinition .override .override start
      | .extend => redefinition .extend .extend start

/-! ### Statements and grammars -/

/-- A definition or a directive. -/
def statement : Parse σ Tree := do
  match ← kind with
  | .directive name => directive name
  | _ => definition .statement

/-- The end of a statement: a line break, which is taken, or the end of the text. -/
def endOfStatement : Parse σ Unit := do
  match ← kind with
  | .newline =>
      let _ ← take
  | .endOfInput => return ()
  | _ => unexpected .endOfLine

/-- Line breaks without a statement. -/
def blankLines : Parse σ Unit := do
  let _ ← many (· == .newline) take

/-- A statement with its end and the line breaks behind it. -/
def terminatedStatement : Parse σ Tree := do
  let tree ← statement
  endOfStatement
  blankLines
  return tree

/-- All statements of a text of the given number of bytes, in a node that covers the text. -/
def grammar (length : Nat) : Parse σ Tree := do
  blankLines
  let statements ← many (· != .endOfInput) terminatedStatement
  return .node .start (statements.map .tree) ⟨0, length, 1, 1⟩

end GrammarCatalog.Parse
