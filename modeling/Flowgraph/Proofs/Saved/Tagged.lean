import Flowgraph.Graph.Export
import Flowgraph.Proofs.Saved.Form
import Flowgraph.Proofs.Value.RoundTrip

namespace Flowgraph

theorem getElem?_of_mapM {α β : Type} {read : α → Option β} {items : List α} {values : List β}
    (all : items.mapM read = some values) {i : Nat} {item : α} (place : items[i]? = some item) :
    ∃ value, values[i]? = some value ∧ read item = some value := by
  induction items generalizing values i with
  | nil => cases place
  | cons first rest ih =>
    rw [List.mapM_cons] at all
    obtain ⟨value, found, all⟩ := Option.bind_eq_some_iff.mp all
    obtain ⟨others, remaining, same⟩ := Option.bind_eq_some_iff.mp all
    cases same
    cases i with
    | zero =>
      cases place
      exact ⟨value, rfl, found⟩
    | succ i => exact ih remaining place

namespace Value

mutual

theorem readable_toTagged (v : Value) : v.toTagged.readable = true := by
  cases v with
  | float x =>
    rw [toTagged]
    split <;> rfl
  | array items =>
    have inside := readableItems_toTaggedItems items
    simp only [toTagged, tag, Json.readable, Json.readableEntries, inside, Bool.and_self]
  | object typeId fields =>
    have inside := readableEntries_toTaggedFields fields
    cases typeId <;>
      simp only [toTagged, tag, Json.readable, Json.readableEntries, inside, Bool.and_self]
  | _ => rfl

theorem readableItems_toTaggedItems (items : List Value) :
    Json.readableItems (toTaggedItems items) = true := by
  cases items with
  | nil => rfl
  | cons item rest =>
    rw [toTaggedItems, Json.readableItems, item.readable_toTagged,
      readableItems_toTaggedItems rest, Bool.and_self]

theorem readableEntries_toTaggedFields (fields : List (String × Value)) :
    Json.readableEntries (toTaggedFields fields) = true := by
  match fields with
  | [] => rfl
  | (name, value) :: rest =>
    rw [toTaggedFields, Json.readableEntries, value.readable_toTagged,
      readableEntries_toTaggedFields rest, Bool.and_self]

end

/-- A tagged form is an object that names a kind and has at most a content beside it. -/
theorem toTagged_cases (v : Value) :
    (∃ name, v.toTagged = .object [("kind", .string name)]) ∨
      ∃ name content, v.toTagged = tag name content := by
  cases v with
  | null => exact Or.inl ⟨_, rfl⟩
  | object typeId fields => cases typeId <;> exact Or.inr ⟨_, _, rfl⟩
  | _ => exact Or.inr ⟨_, _, rfl⟩

end Value

namespace SavedNode

open Value

/-- The reader takes every tagged form for what it is. -/
theorem taggedReading?_toTagged (v : Value) :
    taggedReading? v.toTagged.normalize = ofTagged? v.toTagged.normalize := by
  rcases v.toTagged_cases with ⟨name, form⟩ | ⟨name, content, form⟩
  · rw [form]
    rfl
  · rw [form, normalize_tag]
    rfl

/-- A setting in tagged form is read as its value, though the reader takes literals as well. -/
theorem settingOfJson?_toTagged {v : Value} (ordered : v.Ordered) (finite : v.AllFinite) :
    settingOfJson? v.toTagged = some v := by
  rw [settingOfJson?_eq v.readable_toTagged, taggedReading?_toTagged,
    (ofTagged?_toTagged ordered finite).2, Option.getD_some]

/-- Settings are read one by one, each from the item in its place. -/
theorem getElem?_settings {j template : Json} {items : List Json} {node : SavedNode}
    (read : ofJson? j = some node)
    (fields : j.fields? ["template", "internalValues"] = some [some template, some (.array items)])
    {i : Nat} {item : Json} (place : items[i]? = some item) :
    ∃ v, node.settings[i]? = some v ∧ settingOfJson? item = some v := by
  unfold ofJson? at read
  rw [fields, Option.bind_eq_bind, Option.bind_some] at read
  obtain ⟨name, _, built⟩ := Option.bind_eq_some_iff.mp read
  obtain ⟨settings, all, same⟩ := Option.bind_eq_some_iff.mp built
  cases same
  exact getElem?_of_mapM all place

end SavedNode

namespace SavedGraph

theorem getElem?_nodes {doc : Json} {edges : Option Json} {items : List Json}
    {form : SavedGraph} (read : ofJson? doc = some form)
    (fields : doc.fields? ["nodes", "edges"] = some [some (.array items), edges])
    {i : Nat} {item : Json} (place : items[i]? = some item) :
    ∃ node, form.nodes[i]? = some node ∧ SavedNode.ofJson? item = some node := by
  unfold ofJson? at read
  rw [fields, Option.bind_eq_bind, Option.bind_some] at read
  obtain ⟨nodes, all, built⟩ := Option.bind_eq_some_iff.mp read
  obtain ⟨others, _, same⟩ := Option.bind_eq_some_iff.mp built
  cases same
  exact getElem?_of_mapM all place

/-- A document of a graph has this where a setting of a node is written, both by their places. -/
def Writes (doc : Json) (node setting : Nat) (j : Json) : Prop :=
  ∃ nodes edges entry template settings,
    doc.fields? ["nodes", "edges"] = some [some (.array nodes), edges] ∧
      nodes[node]? = some entry ∧
      entry.fields? ["template", "internalValues"] = some [some template, some (.array settings)] ∧
      settings[setting]? = some j

/-- Each setting is read from what is written in its place and from nothing else. -/
theorem setting_of_writes {doc j : Json} {form : SavedGraph} (read : ofJson? doc = some form)
    {node setting : Nat} (writes : Writes doc node setting j) :
    ∃ saved v, form.nodes[node]? = some saved ∧ saved.settings[setting]? = some v ∧
      SavedNode.settingOfJson? j = some v := by
  obtain ⟨nodes, edges, entry, template, settings, fields, atNode, inner, atSetting⟩ := writes
  obtain ⟨saved, inForm, readNode⟩ := getElem?_nodes read fields atNode
  obtain ⟨v, inNode, readSetting⟩ := SavedNode.getElem?_settings readNode inner atSetting
  exact ⟨saved, v, inForm, inNode, readSetting⟩

end SavedGraph

namespace Export

/-- The values in an export: the one that is tuned and the settings. -/
def values (e : Export) : List Value := e.value :: e.settings.map (·.2)

theorem fields_toJson (e : Export) :
    e.toJson.fields? ["name", "value", "template", "settings"] =
      some [some (.string e.name), some e.value.toTagged, some (.string e.template),
        if e.settings.isEmpty then none
        else some (.array
          (e.settings.map fun (name, value) => .array [.string name, value.toTagged]))] := by
  unfold toJson
  cases e.settings.isEmpty <;> rfl

/-- An export entry whose values are finite is read back as it was written. -/
theorem ofJson?_toJson {e : Export} (whole : ∀ v ∈ e.values, v.Ordered ∧ v.AllFinite) :
    ofJson? e.toJson = some e := by
  obtain ⟨⟨ordered, finite⟩, others⟩ := List.forall_mem_cons.mp whole
  have value := (Value.ofTagged?_toTagged ordered finite).1
  have settings :
      (e.settings.map fun (name, value) => Json.array [.string name, value.toTagged]).mapM
        settingOfJson? = some e.settings := by
    rw [mapM_map id, List.map_id]
    rintro ⟨name, v⟩ member
    obtain ⟨ordered, finite⟩ := others v (List.mem_map_of_mem member)
    simp [settingOfJson?, Json.asString?, (Value.ofTagged?_toTagged ordered finite).1]
  unfold ofJson?
  rw [fields_toJson]
  cases empty : e.settings.isEmpty with
  | true =>
    have none : [] = e.settings := (List.isEmpty_iff.mp empty).symm
    simp [Json.asString?, value, Json.orDefault?, none]
  | false => simp [Json.asString?, value, Json.orDefault?, Json.asList?, settings]

/-- Only settings that there are have an entry. -/
theorem settings_toJson (e : Export) :
    ∃ entries, e.toJson = .object entries ∧
      ("settings" ∈ Dictionary.keys entries ↔ e.settings ≠ []) := by
  refine ⟨_, rfl, ?_⟩
  cases empty : e.settings.isEmpty with
  | true => simp [Dictionary.keys, List.isEmpty_iff.mp empty]
  | false =>
    have some : e.settings ≠ [] := by simpa using empty
    simp [Dictionary.keys, some]

end Export

/-- A value whose doubles are finite comes back from its tagged form, whatever its fields are
called. So does a setting that is written in this form, wherever it stands in the document of a
graph, and so does an export, which has an entry for its settings only if there are some. -/
theorem tagged_lossless :
    (∀ v : Value, v.Ordered → v.AllFinite →
      Value.ofTagged? v.toTagged = some v ∧ SavedNode.settingOfJson? v.toTagged = some v ∧
        ∀ doc form node setting, SavedGraph.ofJson? doc = some form →
          SavedGraph.Writes doc node setting v.toTagged →
          ∃ saved, form.nodes[node]? = some saved ∧ saved.settings[setting]? = some v) ∧
    ∀ e : Export, (∀ v ∈ e.values, v.Ordered ∧ v.AllFinite) →
      Export.ofJson? e.toJson = some e ∧
        ∃ entries, e.toJson = .object entries ∧
          ("settings" ∈ Dictionary.keys entries ↔ e.settings ≠ []) := by
  refine ⟨fun v ordered finite => ?_,
    fun e whole => ⟨Export.ofJson?_toJson whole, e.settings_toJson⟩⟩
  have asSetting := SavedNode.settingOfJson?_toTagged ordered finite
  refine ⟨(Value.ofTagged?_toTagged ordered finite).1, asSetting, ?_⟩
  intro doc form node setting read writes
  obtain ⟨saved, w, inForm, inNode, readSetting⟩ := SavedGraph.setting_of_writes read writes
  cases asSetting.symm.trans readSetting
  exact ⟨saved, inForm, inNode⟩

/-- Fields with the names that literals and tagged forms reserve, and a type name that is a kind. -/
def jumbled : Value :=
  .array [.null,
    .object (some "null") [("__handle__", .string "left"), ("__type__", .int 5),
      ("kind", .string "null"), ("value", .null)],
    .object none [("kind", .string "float"), ("value", .float 1.5)], .handle ⟨⟨7⟩, "entity"⟩]

/-- A node with a literal setting and one in the tagged form. -/
def migrating : Json :=
  .object [("nodes", .array [.object [("template", .string "Keep"),
    ("internalValues", .array [.int 7, jumbled.toTagged])]])]

def jumbledExport : Export := ⟨"speed", jumbled, "Keep", []⟩

theorem tagged_lossless_jumbled :
    jumbled.Ordered ∧ jumbled.AllFinite ∧ SavedGraph.Writes migrating 0 1 jumbled.toTagged ∧
      (∃ form saved, SavedGraph.ofJson? migrating = some form ∧ form.nodes[0]? = some saved ∧
        saved.settings[1]? = some jumbled) ∧
      (∀ v ∈ jumbledExport.values, v.Ordered ∧ v.AllFinite) ∧
      Export.ofJson? jumbledExport.toJson = some jumbledExport := by
  have ordered : jumbled.Ordered := by
    refine ⟨trivial, ⟨?_, trivial, trivial, trivial, trivial, trivial⟩,
      ⟨?_, trivial, trivial, trivial⟩, trivial, trivial⟩
    all_goals
      unfold Dictionary.Sorted
      decide
  have finite : jumbled.AllFinite := by
    have number : (Value.float 1.5).AllFinite := by
      unfold Value.AllFinite
      decide
    exact ⟨trivial, ⟨trivial, trivial, trivial, trivial, trivial⟩, ⟨trivial, number, trivial⟩,
      trivial, trivial⟩
  have writes : SavedGraph.Writes migrating 0 1 jumbled.toTagged :=
    ⟨_, _, _, _, _, rfl, rfl, rfl, rfl⟩
  have only : ∀ v ∈ jumbledExport.values, v.Ordered ∧ v.AllFinite := by
    intro v member
    cases List.mem_singleton.mp member
    exact ⟨ordered, finite⟩
  obtain ⟨form, read⟩ : ∃ form, SavedGraph.ofJson? migrating = some form := ⟨_, rfl⟩
  obtain ⟨values, exports⟩ := tagged_lossless
  obtain ⟨_, _, placed⟩ := values jumbled ordered finite
  obtain ⟨saved, inForm, inNode⟩ := placed migrating form 0 1 read writes
  exact ⟨ordered, finite, writes, ⟨form, saved, read, inForm, inNode⟩, only,
    (exports jumbledExport only).1⟩

end Flowgraph
