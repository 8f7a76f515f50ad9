/-
**JSON forms of the catalogue.**

The kinds, markers, names, policies and collections of a catalogue are kept as JSON.  The fields of
a policy may be missing and then have the values of the policy that applies without further ado;
all other fields have to be there.

Main definitions:

* `toJson` and `ofJson?` for `GrammarCatalog.Declaration.Kind`, `GrammarCatalog.Visibility`,
  `GrammarCatalog.Markers`, `GrammarCatalog.ClassifiedName`, `GrammarCatalog.Policy` and
  `GrammarCatalog.Collected` — the JSON form of a value, and the value of a JSON form.
-/

import GrammarCatalog.Declaration.Collector
import GrammarCatalog.Declaration.Policy
import GrammarCatalog.Json.Form

set_option relaxedAutoImplicit false
set_option autoImplicit false

namespace GrammarCatalog

/-! ### Kinds and visibilities -/

namespace Declaration.Kind

/-- The JSON form of a way of declaring: its name. -/
def toJson (kind : Declaration.Kind) : Json := .ofString kind.name

/-- The way of declaring of a JSON form. -/
def ofJson? (value : Json) : Option Declaration.Kind := Json.choice? name [rule, aliased] value

end Declaration.Kind

namespace Visibility

/-- How a visibility is named. -/
def name : Visibility → String
  | visible => "public"
  | inner => "inner"
  | conditional => "conditional"

/-- The JSON form of a visibility: its name. -/
def toJson (visibility : Visibility) : Json := .ofString visibility.name

/-- The visibility of a JSON form. -/
def ofJson? (value : Json) : Option Visibility :=
  Json.choice? name [visible, inner, conditional] value

end Visibility

/-! ### Markers and names -/

namespace Markers

/-- The JSON form of markers. -/
def toJson (markers : Markers) : Json :=
  .ofFields [("pinned", .bool markers.pinned), ("visibility", markers.visibility.toJson)]

/-- The markers of a JSON form. -/
def ofJson? (value : Json) : Option Markers := do
  let [pinned, visibility] ← Json.fields? ["pinned", "visibility"] value | failure
  let pinned ← Json.required? Json.bool? pinned
  let visibility ← Json.required? Visibility.ofJson? visibility
  return ⟨pinned, visibility⟩

end Markers

namespace ClassifiedName

/-- The JSON form of a classified name. -/
def toJson (name : ClassifiedName) : Json :=
  .ofFields [("base_name", .ofString name.baseName), ("markers", name.markers.toJson),
    ("kind", name.kind.toJson)]

/-- The classified name of a JSON form. -/
def ofJson? (value : Json) : Option ClassifiedName := do
  let [baseName, markers, kind] ← Json.fields? ["base_name", "markers", "kind"] value | failure
  let baseName ← Json.required? Json.text? baseName
  let markers ← Json.required? Markers.ofJson? markers
  let kind ← Json.required? Declaration.Kind.ofJson? kind
  return ⟨baseName, markers, kind⟩

end ClassifiedName

/-! ### Policies -/

namespace Policy

/-- The keys of a policy. -/
def fieldNames : List String := ["show_inner", "show_conditional", "show_alias", "show_pinned"]

/-- The JSON form of a policy. -/
def toJson (policy : Policy) : Json :=
  .ofFields [("show_inner", .bool policy.showInner),
    ("show_conditional", .bool policy.showConditional), ("show_alias", .bool policy.showAlias),
    ("show_pinned", .bool policy.showPinned)]

/-- The policy of a JSON form. -/
def ofJson? (value : Json) : Option Policy := do
  let base : Policy := {}
  let [inner, conditional, aliased, pinned] ← Json.fields? fieldNames value | failure
  let inner ← Json.optional? Json.bool? base.showInner inner
  let conditional ← Json.optional? Json.bool? base.showConditional conditional
  let aliased ← Json.optional? Json.bool? base.showAlias aliased
  let pinned ← Json.optional? Json.bool? base.showPinned pinned
  return ⟨inner, conditional, aliased, pinned⟩

end Policy

/-! ### Collections -/

namespace Collected

/-- The JSON form of a collection. -/
def toJson (collected : Collected) : Json :=
  .ofFields [("rule_names", .ofStrings collected.ruleNames),
    ("alias_names", .ofStrings collected.aliasNames)]

/-- The collection of a JSON form. -/
def ofJson? (value : Json) : Option Collected := do
  let [rules, aliases] ← Json.fields? ["rule_names", "alias_names"] value | failure
  let rules ← Json.required? (Json.list? Json.text?) rules
  let aliases ← Json.required? (Json.list? Json.text?) aliases
  return ⟨rules, aliases⟩

end Collected

end GrammarCatalog
