/-
**JSON forms keep their values.**

The kinds, markers, names, policies and collections of a catalogue survive being kept as JSON: what
is written for a value is read as that value, so that rewriting a text changes it once at most.  The
structures among them are read by their keys alone.  The order of the members of an object does not
count, and neither do members with other keys.

Main definitions:

* `GrammarCatalog.Json.read`, `GrammarCatalog.Json.rewrite` — the value of a text, and the text
  that is written for it;
* `GrammarCatalog.Json.KeepsValues` — a type of values survives being kept as JSON;
* `GrammarCatalog.Json.Rearranged` — the members of an object in another order and among others;
* `GrammarCatalog.Json.ReadsByKey` — objects with rearranged members have the same value;
* `GrammarCatalog.Policy.members` — the members of an object that gives some fields of a policy.

Main results:

* `GrammarCatalog.Json.Rearranged.fields?_eq` — rearranged members have the same fields;
* `GrammarCatalog.json_forms` — **the JSON forms of a catalogue keep their values**, and its
  structures are read by their keys.
-/

import GrammarCatalog.Declaration.JsonForm
import GrammarCatalog.Proofs.Json.ReadBack

set_option relaxedAutoImplicit false
set_option autoImplicit false

namespace GrammarCatalog

namespace Json

variable {α : Type} {toJson : α → Json} {ofJson? : Json → Option α}

/-! ### Values kept as texts -/

/-- The value of a text. -/
def read (ofJson? : Json → Option α) (text : String) : Option α := (Json.parse text).bind ofJson?

/-- The text that is written for the value of a text. -/
def rewrite (toJson : α → Json) (ofJson? : Json → Option α) (text : String) : Option String :=
  (read ofJson? text).map fun value => (toJson value).compact

/-- Values survive being written and read. -/
structure KeepsValues (toJson : α → Json) (ofJson? : Json → Option α) : Prop where
  /-- What is written for a value is read as the value. -/
  read_compact : ∀ value, read ofJson? (toJson value).compact = some value
  /-- So is what is written for it over several lines. -/
  read_pretty : ∀ value, read ofJson? (toJson value).pretty = some value
  /-- Rewriting a text keeps its value. -/
  read_rewrite : ∀ text, (rewrite toJson ofJson? text).bind (read ofJson?) = read ofJson? text
  /-- Rewriting a text again keeps the text. -/
  rewrite_rewrite : ∀ text,
    (rewrite toJson ofJson? text).bind (rewrite toJson ofJson?) = rewrite toJson ofJson? text

theorem read_of_parse {text : String} {value : Json} (h : Json.parse text = some value) :
    read ofJson? text = ofJson? value := by
  rw [read, h, Option.bind_some]

/-- Values whose forms have no numbers survive being written and read if they survive being taken
to their forms. -/
theorem keepsValues (hnumberless : ∀ value, (toJson value).IsNumberless)
    (hform : ∀ value, ofJson? (toJson value) = some value) : KeepsValues toJson ofJson? := by
  have hcompact : ∀ value, read ofJson? (toJson value).compact = some value := fun value =>
    (read_of_parse (parse_compact (hnumberless value))).trans (hform value)
  refine ⟨hcompact, fun value => ?_, fun text => ?_, fun text => ?_⟩
  · have hnone : ∀ c ∈ "".toList, isBlank c = true := by simp
    have hparse := parse_pretty (hnumberless value) hnone
    rw [String.append_empty] at hparse
    exact (read_of_parse hparse).trans (hform value)
  · cases hread : read ofJson? text with
    | none => simp [rewrite, hread]
    | some value => simp [rewrite, hread, hcompact]
  · cases hread : read ofJson? text with
    | none => simp [rewrite, hread]
    | some value => simp [rewrite, hread, hcompact]

/-! ### Forms without numbers -/

theorem isNumberless_ofString (text : String) : (ofString text).IsNumberless := .string text

theorem isNumberless_ofStrings (texts : List String) : (ofStrings texts).IsNumberless := by
  refine .array fun item hitem => ?_
  obtain ⟨text, -, rfl⟩ := List.mem_map.1 hitem
  exact isNumberless_ofString text

theorem isNumberless_ofFields {fields : List (String × Json)}
    (h : ∀ field ∈ fields, field.2.IsNumberless) : (ofFields fields).IsNumberless := by
  refine .object fun member hmember => ?_
  obtain ⟨field, hfield, rfl⟩ := List.mem_map.1 hmember
  exact h field hfield

theorem list?_ofStrings (texts : List String) : list? text? (ofStrings texts) = some texts := by
  induction texts with
  | nil => rfl
  | cons text texts ih =>
      rw [ofStrings, list?] at ih ⊢
      rw [List.map_cons, List.mapM_cons, ih]
      rfl

/-! ### Members in another order -/

variable {known names : List String} {members members' : List (Option String × Json)}

/-- The same members in some order, with others among them, whose keys are none of the given
ones. -/
def Rearranged (known : List String) (members members' : List (Option String × Json)) : Prop :=
  ∃ others, (members ++ others).Perm members' ∧
    ∀ member ∈ others, ∃ key, member.1 = some key ∧ key ∉ known

/-- A field does not depend on the order of the members. -/
theorem field?_eq_of_perm (h : members.Perm members') (name : String) :
    field? members' name = field? members name := by
  have hfilter := h.filter fun member => member.1 == some name
  rw [field?, field?]
  generalize members.filter (fun member => member.1 == some name) = found at hfilter
  generalize members'.filter (fun member => member.1 == some name) = found' at hfilter
  match found with
  | [] => rw [List.nil_perm.1 hfilter]
  | [member] => rw [List.singleton_perm.1 hfilter]
  | _ :: _ :: _ =>
      match found', hfilter.length_eq with
      | _ :: _ :: _, _ => rfl

/-- A field does not depend on members with other keys. -/
theorem field?_append_of_ne {others : List (Option String × Json)} {name : String}
    (h : ∀ member ∈ others, member.1 ≠ some name) (members : List (Option String × Json)) :
    field? (members ++ others) name = field? members name := by
  have hothers : others.filter (fun member => member.1 == some name) = [] :=
    List.filter_eq_nil_iff.2 fun member hmember => by simp [h member hmember]
  rw [field?, field?, List.filter_append, hothers, List.append_nil]

namespace Rearranged

theorem field?_eq (h : Rearranged known members members') {name : String} (hname : name ∈ known) :
    field? members' name = field? members name := by
  obtain ⟨others, hperm, hothers⟩ := h
  have hne : ∀ member ∈ others, member.1 ≠ some name := by
    intro member hmember heq
    obtain ⟨key, hkey, hunknown⟩ := hothers member hmember
    rw [hkey, Option.some.injEq] at heq
    exact hunknown (heq ▸ hname)
  rw [field?_eq_of_perm hperm, field?_append_of_ne hne]

/-- All keys still denote texts, or one of them still does not. -/
theorem all_isSome (h : Rearranged known members members') :
    (members'.all fun member => member.1.isSome) = members.all fun member => member.1.isSome := by
  obtain ⟨others, hperm, hothers⟩ := h
  have hsome : (others.all fun member => member.1.isSome) = true := by
    refine List.all_eq_true.2 fun member hmember => ?_
    obtain ⟨key, hkey, -⟩ := hothers member hmember
    rw [hkey, Option.isSome_some]
  rw [← hperm.all_eq, List.all_append, hsome, Bool.and_true]

theorem mapM_field?_eq (h : Rearranged known members members')
    (hnames : ∀ name ∈ names, name ∈ known) :
    names.mapM (field? members') = names.mapM (field? members) := by
  induction names with
  | nil => rfl
  | cons name names ih =>
      rw [List.forall_mem_cons] at hnames
      rw [List.mapM_cons, List.mapM_cons, h.field?_eq hnames.1, ih hnames.2]

/-- **Rearranged members have the same fields.** -/
theorem fields?_eq (h : Rearranged known members members') :
    fields? known (.object members') = fields? known (.object members) := by
  rw [fields?, fields?, h.all_isSome, h.mapM_field?_eq fun _ hname => hname]

end Rearranged

variable {front back : List (Option String × Json)} {key name : String}

/-- A field does not depend on a member with another key. -/
theorem field?_insert_of_ne (hne : key ≠ name) (value : Json) :
    field? (front ++ (some key, value) :: back) name = field? (front ++ back) name := by
  simp [field?, List.filter_append, hne]

/-- A member gives the field of its key if no other member has that key. -/
theorem field?_insert (value : Json) : field? (front ++ (some key, value) :: back) key =
    if (front ++ back).filter (fun member => member.1 == some key) = [] then some (some value)
    else none := by
  rw [field?, List.filter_append, List.filter_cons_of_pos (by simp), List.filter_append]
  cases front.filter fun member => member.1 == some key with
  | nil => cases back.filter fun member => member.1 == some key <;> simp
  | cons member members => cases members <;> simp

/-- A structure is read by its keys: texts of objects with rearranged members have the same
value, or none. -/
def ReadsByKey (known : List String) (ofJson? : Json → Option α) : Prop :=
  ∀ text text' members members', Json.parse text = some (.object members) →
    Json.parse text' = some (.object members') → Rearranged known members members' →
      read ofJson? text' = read ofJson? text

theorem readsByKey (h : ∀ value value', fields? known value' = fields? known value →
    ofJson? value' = ofJson? value) : ReadsByKey known ofJson? := by
  intro text text' members members' hparse hparse' hmembers
  rw [read_of_parse hparse, read_of_parse hparse']
  exact h _ _ hmembers.fields?_eq

end Json

open Json

/-! ### Kinds and visibilities -/

theorem Declaration.Kind.keepsValues : KeepsValues Kind.toJson Kind.ofJson? :=
  Json.keepsValues (fun kind => isNumberless_ofString kind.name) fun kind => by cases kind <;> rfl

theorem Visibility.keepsValues : KeepsValues toJson ofJson? :=
  Json.keepsValues (fun visibility => isNumberless_ofString visibility.name)
    fun visibility => by cases visibility <;> rfl

/-! ### Markers and names -/

namespace Markers

theorem isNumberless_toJson (markers : Markers) : markers.toJson.IsNumberless := by
  refine isNumberless_ofFields ?_
  simp only [List.forall_mem_cons, List.not_mem_nil, false_implies, implies_true, and_true]
  exact ⟨.bool _, isNumberless_ofString _⟩

theorem ofJson?_toJson (markers : Markers) : ofJson? markers.toJson = some markers := by
  obtain ⟨pinned, visibility⟩ := markers
  cases visibility <;> rfl

theorem keepsValues : KeepsValues toJson ofJson? :=
  Json.keepsValues isNumberless_toJson ofJson?_toJson

theorem readsByKey : ReadsByKey ["pinned", "visibility"] ofJson? :=
  Json.readsByKey fun value value' h => by rw [ofJson?, ofJson?, h]

theorem ofJson?_of_rearranged {members members' : List (Option String × Json)}
    (h : Rearranged ["pinned", "visibility"] members members') :
    ofJson? (.object members') = ofJson? (.object members) := by
  rw [ofJson?, ofJson?, h.fields?_eq]

end Markers

namespace ClassifiedName

/-- The keys of a classified name. -/
def fieldNames : List String := ["base_name", "markers", "kind"]

theorem isNumberless_toJson (name : ClassifiedName) : name.toJson.IsNumberless := by
  refine isNumberless_ofFields ?_
  simp only [List.forall_mem_cons, List.not_mem_nil, false_implies, implies_true, and_true]
  exact ⟨isNumberless_ofString _, name.markers.isNumberless_toJson, isNumberless_ofString _⟩

theorem ofJson?_toJson (name : ClassifiedName) : ofJson? name.toJson = some name := by
  obtain ⟨baseName, ⟨pinned, visibility⟩, kind⟩ := name
  cases visibility <;> cases kind <;> rfl

theorem keepsValues : KeepsValues toJson ofJson? :=
  Json.keepsValues isNumberless_toJson ofJson?_toJson

theorem readsByKey : ReadsByKey fieldNames ofJson? :=
  Json.readsByKey fun value value' h => by
    rw [fieldNames] at h
    rw [ofJson?, ofJson?, h]

/-- The members of the markers of a name are rearranged, and those of the name as well. -/
inductive MarkersRearranged : Json → Json → Prop
  /-- The name is given by an object. -/
  | object {front back members' inner inner' : List (Option String × Json)}
      (hinner : Rearranged ["pinned", "visibility"] inner inner')
      (hmembers : Rearranged fieldNames (front ++ (some "markers", .object inner') :: back)
        members') :
      MarkersRearranged (.object (front ++ (some "markers", .object inner) :: back))
        (.object members')
  /-- The name is given by an array of its fields. -/
  | array {inner inner' : List (Option String × Json)} (baseName kind : Json)
      (hinner : Rearranged ["pinned", "visibility"] inner inner') :
      MarkersRearranged (.array [baseName, .object inner, kind])
        (.array [baseName, .object inner', kind])

/-- The value depends on the members of the markers by their keys alone. -/
theorem ofJson?_insert {front back inner inner' : List (Option String × Json)}
    (hinner : Rearranged ["pinned", "visibility"] inner inner') :
    ofJson? (.object (front ++ (some "markers", .object inner') :: back)) =
      ofJson? (.object (front ++ (some "markers", .object inner) :: back)) := by
  have hmarkers := Markers.ofJson?_of_rearranged hinner
  have hbase : "markers" ≠ "base_name" := by decide
  have hkind : "markers" ≠ "kind" := by decide
  have hall : ∀ members, ((front ++ (some "markers", .object members) :: back).all
      fun member => member.1.isSome) = (front ++ back).all fun member => member.1.isSome := by
    intro members
    simp
  simp only [ofJson?, fields?, hall, List.mapM_cons, List.mapM_nil, field?_insert_of_ne hbase,
    field?_insert_of_ne hkind, field?_insert]
  split
  · split
    · cases field? (front ++ back) "base_name" <;> cases field? (front ++ back) "kind" <;>
        simp [required?, hmarkers]
    · rfl
  · rfl

theorem ofJson?_of_markersRearranged {value value' : Json} (h : MarkersRearranged value value') :
    ofJson? value' = ofJson? value := by
  cases h with
  | object hinner hmembers =>
      rw [← ofJson?_insert hinner, ofJson?, ofJson?]
      rw [fieldNames] at hmembers
      rw [hmembers.fields?_eq]
  | array baseName kind hinner =>
      have hfields : ∀ markers, fields? ["base_name", "markers", "kind"]
          (.array [baseName, markers, kind]) = some [some baseName, some markers, some kind] :=
        fun _ => rfl
      simp only [ofJson?, hfields, Option.bind_eq_bind, Option.bind_some, required?,
        Markers.ofJson?_of_rearranged hinner]

end ClassifiedName

/-! ### Policies -/

namespace Policy

/-- The members of an object that gives some fields of a policy. -/
def members (inner conditional aliased pinned : Option Bool) : List (Option String × Json) :=
  [("show_inner", inner), ("show_conditional", conditional), ("show_alias", aliased),
    ("show_pinned", pinned)].filterMap fun field =>
      field.2.map fun shown => (some field.1, .bool shown)

theorem isNumberless_toJson (policy : Policy) : policy.toJson.IsNumberless := by
  refine isNumberless_ofFields ?_
  simp only [List.forall_mem_cons, List.not_mem_nil, false_implies, implies_true, and_true]
  exact ⟨.bool _, .bool _, .bool _, .bool _⟩

theorem keepsValues : KeepsValues toJson ofJson? :=
  Json.keepsValues isNumberless_toJson fun _ => rfl

theorem readsByKey : ReadsByKey fieldNames ofJson? :=
  Json.readsByKey fun value value' h => by rw [ofJson?, ofJson?, h]

theorem fields?_members (inner conditional aliased pinned : Option Bool) :
    fields? fieldNames (.object (members inner conditional aliased pinned)) =
      some [inner.map .bool, conditional.map .bool, aliased.map .bool, pinned.map .bool] := by
  cases inner <;> cases conditional <;> cases aliased <;> cases pinned <;> rfl

theorem optional?_map (base : Bool) (shown : Option Bool) :
    optional? bool? base (shown.map .bool) = some (shown.getD base) := by
  cases shown <;> rfl

/-- Fields that an object does not give are those of the policy that applies without further
ado. -/
theorem ofJson?_of_rearranged {inner conditional aliased pinned : Option Bool}
    {members' : List (Option String × Json)}
    (h : Rearranged fieldNames (members inner conditional aliased pinned) members') :
    ofJson? (.object members') =
      some ⟨inner.getD ({} : Policy).showInner, conditional.getD ({} : Policy).showConditional,
        aliased.getD ({} : Policy).showAlias, pinned.getD ({} : Policy).showPinned⟩ := by
  rw [ofJson?, h.fields?_eq, fields?_members]
  simp only [Option.bind_eq_bind, Option.bind_some, optional?_map]
  rfl

end Policy

/-! ### Collections -/

namespace Collected

theorem isNumberless_toJson (collected : Collected) : collected.toJson.IsNumberless := by
  refine isNumberless_ofFields ?_
  simp only [List.forall_mem_cons, List.not_mem_nil, false_implies, implies_true, and_true]
  exact ⟨isNumberless_ofStrings _, isNumberless_ofStrings _⟩

theorem ofJson?_toJson (collected : Collected) : ofJson? collected.toJson = some collected := by
  obtain ⟨rules, aliases⟩ := collected
  have hfields : fields? ["rule_names", "alias_names"] (toJson ⟨rules, aliases⟩) =
      some [some (.ofStrings rules), some (.ofStrings aliases)] := rfl
  simp only [ofJson?, hfields, Option.bind_eq_bind, Option.bind_some, required?, list?_ofStrings]
  rfl

theorem keepsValues : KeepsValues toJson ofJson? :=
  Json.keepsValues isNumberless_toJson ofJson?_toJson

theorem readsByKey : ReadsByKey ["rule_names", "alias_names"] ofJson? :=
  Json.readsByKey fun value value' h => by rw [ofJson?, ofJson?, h]

end Collected

/-! ### All of them -/

/-- **The JSON forms of a catalogue keep their values.**  For each of its types, what is written
for a value is read as the value, and rewriting a text that is accepted changes neither its value
nor, a second time, the text.  Its structures are read by their keys, whatever the order of the
members and whatever other members there are; this also holds for the markers within a name.  An
object with some of the keys of a policy is the policy that applies without further ado with these
fields replaced. -/
theorem json_forms :
    KeepsValues Declaration.Kind.toJson Declaration.Kind.ofJson? ∧
      KeepsValues Visibility.toJson Visibility.ofJson? ∧
      (KeepsValues Policy.toJson Policy.ofJson? ∧ ReadsByKey Policy.fieldNames Policy.ofJson?) ∧
      (KeepsValues Markers.toJson Markers.ofJson? ∧
        ReadsByKey ["pinned", "visibility"] Markers.ofJson?) ∧
      (KeepsValues ClassifiedName.toJson ClassifiedName.ofJson? ∧
        ReadsByKey ClassifiedName.fieldNames ClassifiedName.ofJson?) ∧
      (KeepsValues Collected.toJson Collected.ofJson? ∧
        ReadsByKey ["rule_names", "alias_names"] Collected.ofJson?) ∧
      (∀ text text' value value', Json.parse text = some value → Json.parse text' = some value' →
        ClassifiedName.MarkersRearranged value value' →
          read ClassifiedName.ofJson? text' = read ClassifiedName.ofJson? text) ∧
      ∀ text members inner conditional aliased pinned, Json.parse text = some (.object members) →
        Rearranged Policy.fieldNames (Policy.members inner conditional aliased pinned) members →
          read Policy.ofJson? text =
            some ⟨inner.getD ({} : Policy).showInner,
              conditional.getD ({} : Policy).showConditional,
              aliased.getD ({} : Policy).showAlias, pinned.getD ({} : Policy).showPinned⟩ := by
  refine ⟨Declaration.Kind.keepsValues, Visibility.keepsValues,
    ⟨Policy.keepsValues, Policy.readsByKey⟩, ⟨Markers.keepsValues, Markers.readsByKey⟩,
    ⟨ClassifiedName.keepsValues, ClassifiedName.readsByKey⟩,
    ⟨Collected.keepsValues, Collected.readsByKey⟩, ?_, ?_⟩
  · intro text text' value value' hparse hparse' hvalue
    rw [read_of_parse hparse, read_of_parse hparse']
    exact ClassifiedName.ofJson?_of_markersRearranged hvalue
  · intro text members inner conditional aliased pinned hparse hmembers
    rw [read_of_parse hparse]
    exact Policy.ofJson?_of_rearranged hmembers

/-- A policy without three of its keys, and with a key that is not one of them. -/
example : read Policy.ofJson? "\x7b\"shown\": null, \"show_alias\": false\x7d" =
    some { showAlias := false } := by
  cbv

end GrammarCatalog
