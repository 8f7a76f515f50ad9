/-
**JSON forms.**

Structures are written as objects with their fields in order, and read from such objects or from
arrays of the fields in that order.  An object may hold further members, which are ignored, but
no field twice.  A choice among names is written as the name, and read from that or from an
object with the name as its only key and null as its value.

Main definitions:

* `GrammarCatalog.Json.fields?` — the values of the fields of a structure;
* `GrammarCatalog.Json.choice?` — a choice among names;
* `GrammarCatalog.Json.text?`, `GrammarCatalog.Json.bool?`, `GrammarCatalog.Json.list?` — texts,
  truth values and lists.
-/

import GrammarCatalog.Json.Basic

set_option relaxedAutoImplicit false
set_option autoImplicit false

namespace GrammarCatalog.Json

variable {α : Type}

/-- The text that a string denotes. -/
def text? : Json → Option String
  | .string text => text
  | _ => none

/-- A truth value. -/
def bool? : Json → Option Bool
  | .bool value => some value
  | _ => none

/-- The items of an array, each read alike. -/
def list? (read : Json → Option α) : Json → Option (List α)
  | .array items => items.mapM read
  | _ => none

/-- The name that a choice is made by. -/
def chosenName? : Json → Option String
  | .string name => name
  | .object [(name, .null)] => name
  | _ => none

/-- A choice among values by their names. -/
def choice? (name : α → String) (choices : List α) (value : Json) : Option α :=
  (chosenName? value).bind fun chosen => choices.find? fun choice => name choice == chosen

/-- The value of a field in the members of an object: the one value of its key, if there is one.
A key that comes up twice is refused. -/
def field? (members : List (Option String × Json)) (name : String) : Option (Option Json) :=
  match members.filter fun member => member.1 == some name with
  | [] => some none
  | [member] => some (some member.2)
  | _ => none

/-- The values of the fields of a structure, in their order; a field without a value may be
missing.  The keys of an object all have to denote texts, and an array must not be longer than
the structure. -/
def fields? (names : List String) : Json → Option (List (Option Json))
  | .object members =>
      if members.all fun member => member.1.isSome then names.mapM (field? members) else none
  | .array items =>
      if items.length ≤ names.length then
        some (items.map some ++ List.replicate (names.length - items.length) none)
      else none
  | _ => none

/-- The value of a field that must not be missing. -/
def required? (read : Json → Option α) (value : Option Json) : Option α := value.bind read

/-- The value of a field that may be missing. -/
def optional? (read : Json → Option α) (default : α) : Option Json → Option α
  | some value => read value
  | none => some default

end GrammarCatalog.Json
