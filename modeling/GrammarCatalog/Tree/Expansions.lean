/-
**Alternatives, items and values.**

The body of a definition is a list of alternatives, each a list of items with an optional alias.
An item is a value or a group of alternatives, with at most one operator behind it; a value is a
literal, a range, a name, or a name with arguments.

Groups and arguments may be nested in each other, but no more than `Parse.maxNesting` of them may
be open at once.  The parsers of what nests are defined by recursion on a number of levels: each one
is built from the parser for what stands one level deeper.  A reader counts what is open itself, and
refuses to go deeper before the levels are used up.  A stream keeps no count, so there the levels
are what may still be opened.

Main definitions:

* `GrammarCatalog.Parse.value` — a literal, a range, a name, or a name with arguments;
* `GrammarCatalog.Parse.expansions` — alternatives, with whatever is nested in them.

Main results:

* `GrammarCatalog.Parse.expansions_eq` — alternatives in terms of items;
* `GrammarCatalog.Parse.value_succ`, `GrammarCatalog.Parse.group_succ` — the parsers of a stream at
  one level in terms of those at the next.
-/

import GrammarCatalog.Tree.Basic
import GrammarCatalog.Tree.Parse

set_option relaxedAutoImplicit false
set_option autoImplicit false

namespace GrammarCatalog.Parse

variable {σ : Type} [TokenSource σ]

/-- One level more than may be open: the token that opens it is refused. -/
def tooDeep {α : Type} : Parse σ α := refuse .nestedTooDeeply

/-! ### Values -/

/-- A string, or a range when two dots and another string follow. -/
def literalString : Parse σ Child := do
  let low ← take
  if (← kind) == .punctuation .dotDot then
    let _ ← take
    match ← kind with
    | .string _ _ =>
        let high ← take
        return .tree (.node .range [.token low, .token high] (low.span.merge high.span))
    | found => refuse (.unexpected .upperString found)
  else
    return .token low

/-- A rule name, or a name with arguments in braces. -/
def ruleReference (argument : Parse σ Child) : Parse σ Child := do
  let name ← take
  if (← kind) == .punctuation .leftBrace then
    let _ ← take
    let arguments ← separated .comma argument
    let closing ← sign .rightBrace
    return .tree
      (.node .templateUsage (.token name :: arguments) (name.span.merge closing.span))
  else
    return .token name

/-- A value, given the parser of its arguments. -/
def valueWith (argument : Parse σ Child) : Parse σ Child := do
  match ← kind with
  | .string _ _ => literalString
  | .regexp _ _ | .terminal _ => return .token (← take)
  | .rule _ => ruleReference argument
  | _ => unexpected .value

/-- A value, of which the arguments may be nested to the given depth.  Each of them is one level
deeper. -/
def value : Nat → Parse σ Child
  | 0 => valueWith (nested tooDeep)
  | depth + 1 => valueWith (nested (value depth))

/-! ### Groups and items -/

/-- Alternatives in parentheses, which cover their parentheses; or alternatives in brackets, which
may be left out. -/
def groupWith (body : Parse σ Tree) : Parse σ Child := do
  let opening ← take
  let alternatives ← body
  if opening.kind == .punctuation .leftParen then
    let closing ← sign .rightParen
    return .tree (alternatives.withSpan (opening.span.merge closing.span))
  else
    let closing ← sign .rightBracket
    return .tree (.node .maybe [.tree alternatives] (opening.span.merge closing.span))

/-- A group or a value. -/
def atomWith (group atom : Parse σ Child) : Parse σ Child := do
  match ← kind with
  | .punctuation .leftParen | .punctuation .leftBracket => group
  | _ => atom

/-- How often an operand is repeated: a count, and an upper count behind two dots. -/
def repetition (operand : Child) : Parse σ Child := do
  let _ ← take
  let count ← number
  let span := operand.span.merge count.span
  if (← kind) == .punctuation .dotDot then
    let _ ← take
    let upper ← number
    return .tree (.node .expr [operand, .token count, .token upper] (span.merge upper.span))
  else
    return .tree (.node .expr [operand, .token count, .absent] span)

/-- An operand with at most one operator behind it. -/
def exprWith (atom : Parse σ Child) : Parse σ Child := do
  let operand ← atom
  match ← kind with
  | .punctuation .question | .punctuation .star | .punctuation .plus =>
      let operator ← take
      return .tree
        (.node .expr [operand, .token operator] (operand.span.merge operator.span))
  | .punctuation .tilde => repetition operand
  | _ => return operand

/-! ### Alternatives -/

/-- The tokens that begin an item. -/
def startsItem : TokenKind → Bool
  | .punctuation .leftParen | .punctuation .leftBracket => true
  | .string _ _ | .regexp _ _ | .terminal _ | .rule _ => true
  | _ => false

/-- The items of one alternative, possibly none.  Without items it is the empty span where the
next token starts. -/
def expansionWith (item : Parse σ Child) : Parse σ Tree := do
  let start := (← current).span.collapse
  let items ← many startsItem item
  refuseMalformed
  return .node .expansion items (items.foldl (fun span child => span.merge child.span) start)

/-- One alternative with its alias, which is refused where aliases are not allowed. -/
def alternativeWith (aliases : Bool) (item : Parse σ Child) : Parse σ Tree := do
  let expansion ← expansionWith item
  if (← kind) == .punctuation .arrow then
    if aliases then
      let _ ← take
      let target ← ruleName
      return .node .alternative [.tree expansion, .token target] (expansion.span.merge target.span)
    else
      refuse .aliasOutsideRule
  else
    return .node .alternative [.tree expansion, .absent] expansion.span

/-- The node of alternatives: it covers them from the first to the last. -/
def expansionsNode (alternatives : List Tree) : Tree :=
  let span :=
    match alternatives with
    | [] => Span.origin
    | first :: others => others.foldl (fun span other => span.merge other.span) first.span
  .node .expansions (alternatives.map .tree) span

/-- Alternatives with a bar between them. -/
def expansionsWith (aliases : Bool) (item : Parse σ Child) : Parse σ Tree := do
  return expansionsNode (← separated .pipe (alternativeWith aliases item))

/-- Alternatives, in which groups and arguments may be nested to the given depth.  Each of them is
one level deeper.  Aliases are allowed in every group, and outside groups if the flag says so. -/
def expansions : Nat → Bool → Parse σ Tree
  | 0, aliases => expansionsWith aliases (exprWith (atomWith (nested tooDeep) (value 0)))
  | depth + 1, aliases =>
      expansionsWith aliases
        (exprWith (atomWith (nested (groupWith (expansions depth true))) (value (depth + 1))))

/-- The contents of a group, of which the given number may still be opened. -/
def group : Nat → Parse σ Child
  | 0 => nested tooDeep
  | depth + 1 => nested (groupWith (expansions depth true))

/-- An item, in which groups and arguments may be nested to the given depth. -/
def item (depth : Nat) : Parse σ Child := exprWith (atomWith (group depth) (value depth))

/-- Alternatives at any depth are alternatives of the items of that depth. -/
theorem expansions_eq (depth : Nat) (aliases : Bool) :
    expansions depth aliases = expansionsWith aliases (item depth : Parse σ Child) := by
  cases depth <;> rfl

/-! ### Streams without a count -/

theorem value_zero : value 0 = valueWith (tooDeep : Parse TokenStream Child) := by
  rw [value, nested_eq]

theorem value_succ (depth : Nat) :
    value (depth + 1) = valueWith (value depth : Parse TokenStream Child) := by
  rw [value, nested_eq]

theorem group_zero : group 0 = (tooDeep : Parse TokenStream Child) := by rw [group, nested_eq]

theorem group_succ (depth : Nat) :
    group (depth + 1) = groupWith (expansions depth true : Parse TokenStream Tree) := by
  rw [group, nested_eq]

end GrammarCatalog.Parse
