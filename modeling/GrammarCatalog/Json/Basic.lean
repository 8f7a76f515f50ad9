/-
**JSON values.**

A JSON value as its text gives it: the members of an object stay in their order, and repeated keys
are kept.  A string of a JSON text need not denote a text, because an escape may stand for half of
a surrogate pair; such strings, and keys of that kind, are values too.

Main definitions:

* `GrammarCatalog.Json` — JSON values;
* `GrammarCatalog.Json.ofString`, `GrammarCatalog.Json.ofFields` — strings that denote a text, and
  objects with such keys.
-/

set_option relaxedAutoImplicit false
set_option autoImplicit false

namespace GrammarCatalog

/-- A value of a JSON text. -/
inductive Json where
  /-- Nothing. -/
  | null
  /-- True or false. -/
  | bool (value : Bool)
  /-- A number as it is written. -/
  | number (literal : String)
  /-- A string, if it denotes a text. -/
  | string (text : Option String)
  /-- Values in order. -/
  | array (items : List Json)
  /-- Keys, if they denote a text, with their values in order. -/
  | object (members : List (Option String × Json))
  deriving Inhabited

namespace Json

/-- The string that denotes a text. -/
def ofString (text : String) : Json := .string (some text)

/-- The array of the strings that denote some texts. -/
def ofStrings (texts : List String) : Json := .array (texts.map ofString)

/-- The object with the given keys and values. -/
def ofFields (fields : List (String × Json)) : Json :=
  .object (fields.map fun field => (some field.1, field.2))

end Json

end GrammarCatalog
