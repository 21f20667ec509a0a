import Flowgraph.Proofs.Value.Tagged

namespace Flowgraph

theorem Handle.ofJson?_toJson (h : Handle) : Handle.ofJson? h.toJson = some h := by
  have fields : h.toJson.fields? ["id", "type_id"] =
      some [some (.string h.id.toText), some (.string h.typeId)] := rfl
  unfold Handle.ofJson?
  rw [fields]
  simp [Json.asUuid?, Json.asString?, Uuid.ofText?_toText]

namespace Value

mutual

/-- The doubles in a value, at every depth, are finite. -/
def AllFinite : Value → Prop
  | .float x => x.isFinite = true
  | .array items => AllFiniteItems items
  | .object _ fields => AllFiniteFields fields
  | _ => True

def AllFiniteItems : List Value → Prop
  | [] => True
  | item :: rest => item.AllFinite ∧ AllFiniteItems rest

def AllFiniteFields : List (String × Value) → Prop
  | [] => True
  | (_, value) :: rest => value.AllFinite ∧ AllFiniteFields rest

end

/-- A value under its kind is read as the content says. -/
theorem ofTagged?_tag {name : String} {kind : Kind} (named : Kind.ofName? name = some kind)
    (content : Json) : ofTagged? (tag name content) = ofContent? kind content := by
  have read : kindOf? [("kind", .string name), ("value", content)] = some kind := by
    simp [kindOf?, Json.single?, precedes, Kind.ofJson?, Json.asName?, named]
  simp [tag, ofTagged?, read, ofTaggedEntries?]

theorem normalize_tag (name : String) (content : Json) :
    (tag name content).normalize = tag name content.normalize := by
  have keys : ("kind" : String) < "value" := by decide
  exact congrArg Json.object (Dictionary.ofList_of_sorted (List.pairwise_pair.mpr keys))

/-- The content of an object is its fields and perhaps a type name. -/
theorem ofContent?_object {entries fields : List (String × Json)} {typeId : Option String}
    (typed : contentTypeId? entries = some typeId)
    (single : Json.single? entries "fields" = some (some (.object fields)))
    (found : ofFieldsEntry? entries = ofTaggedFields? fields) :
    ofContent? .object (.object entries) =
      (ofTaggedFields? fields).map fun read => .object typeId (Dictionary.ofList read) := by
  unfold ofContent?
  simp only [typed, single, found]
  cases ofTaggedFields? fields <;> rfl

theorem ofContent?_untyped (fields : List (String × Json)) :
    ofContent? .object (.object [("fields", .object fields)]) =
      (ofTaggedFields? fields).map fun read => .object none (Dictionary.ofList read) :=
  ofContent?_object rfl rfl rfl

theorem ofContent?_typed (typeId : String) (fields : List (String × Json)) :
    ofContent? .object (.object [("type", .string typeId), ("fields", .object fields)]) =
        (ofTaggedFields? fields).map (fun read => .object (some typeId) (Dictionary.ofList read)) ∧
      ofContent? .object (.object [("fields", .object fields), ("type", .string typeId)]) =
        (ofTaggedFields? fields).map fun read => .object (some typeId) (Dictionary.ofList read) :=
  ⟨ofContent?_object rfl rfl rfl, ofContent?_object rfl rfl rfl⟩

/-- Putting the names in order moves the type name behind the fields. -/
theorem normalize_typed (typeId : String) (fields : List (String × Json)) :
    (Json.object [("type", .string typeId), ("fields", .object fields)]).normalize =
      .object [("fields", (Json.object fields).normalize), ("type", .string typeId)] := by
  have before : ("fields" : String) < "type" := by decide
  simp only [Json.normalize, Json.normalizeEntries, Dictionary.ofList, List.foldl_cons,
    List.foldl_nil, Dictionary.insert, if_pos before]

theorem sorted_of_keys {α β : Type} {entries : List (String × α)} {fields : List (String × β)}
    (keys : entries.map (·.1) = fields.map (·.1)) (sorted : Dictionary.Sorted fields) :
    Dictionary.Sorted entries := by
  have ascending : (fields.map (·.1)).Pairwise (· < ·) := List.pairwise_map.mpr sorted
  rw [← keys] at ascending
  exact List.pairwise_map.mp ascending

theorem keys_toTaggedFields (fields : List (String × Value)) :
    (toTaggedFields fields).map (·.1) = fields.map (·.1) := by
  induction fields with
  | nil => rfl
  | cons entry rest ih => rw [toTaggedFields, List.map_cons, List.map_cons, ih]

theorem keys_normalizeEntries (entries : List (String × Json)) :
    (Json.normalizeEntries entries).map (·.1) = entries.map (·.1) := by
  induction entries with
  | nil => rfl
  | cons entry rest ih => rw [Json.normalizeEntries, List.map_cons, List.map_cons, ih]

theorem normalize_toTaggedFields {fields : List (String × Value)}
    (sorted : Dictionary.Sorted fields) :
    (Json.object (toTaggedFields fields)).normalize =
      .object (Json.normalizeEntries (toTaggedFields fields)) := by
  have keys := (keys_normalizeEntries (toTaggedFields fields)).trans (keys_toTaggedFields fields)
  exact congrArg Json.object (Dictionary.ofList_of_sorted (sorted_of_keys keys sorted))

mutual

/-- A value comes back from its tagged form, and from that form with its names in order. -/
theorem ofTagged?_toTagged {v : Value} (ordered : v.Ordered) (finite : v.AllFinite) :
    ofTagged? v.toTagged = some v ∧ ofTagged? v.toTagged.normalize = some v := by
  cases v with
  | null => exact ⟨rfl, rfl⟩
  | bool b | string s =>
    rw [toTagged, normalize_tag, ofTagged?_tag rfl, ofTagged?_tag rfl]
    exact ⟨rfl, rfl⟩
  | int i =>
    have inRange := And.intro i.minValue_le_toInt i.toInt_le
    have range : Json.asInt64? (.int i.toInt) = some i :=
      (if_pos inRange).trans (congrArg some i.ofInt_toInt)
    rw [toTagged, normalize_tag, ofTagged?_tag rfl, ofTagged?_tag rfl]
    simp only [Json.normalize, ofContent?, range, Option.map_some, and_self]
  | float x =>
    have written : x.isFinite = true := finite
    rw [toTagged, if_pos written, normalize_tag, ofTagged?_tag rfl, ofTagged?_tag rfl,
      Json.normalize, if_pos written]
    exact ⟨rfl, rfl⟩
  | array items =>
    obtain ⟨plain, normal⟩ := ofTaggedItems?_toTaggedItems ordered finite
    rw [toTagged, normalize_tag, ofTagged?_tag rfl, ofTagged?_tag rfl]
    simp only [Json.normalize, ofContent?, plain, normal, Option.map_some, and_self]
  | object typeId fields =>
    obtain ⟨sorted, values⟩ := ordered
    obtain ⟨plain, normal⟩ := ofTaggedFields?_toTaggedFields values finite
    have dictionary := Dictionary.ofList_of_sorted sorted
    cases typeId with
    | none =>
      have fieldsFirst : (Json.object [("fields", .object (toTaggedFields fields))]).normalize =
          .object [("fields", .object (Json.normalizeEntries (toTaggedFields fields)))] := by
        rw [← normalize_toTaggedFields sorted]
        rfl
      rw [toTagged, normalize_tag, ofTagged?_tag rfl, ofTagged?_tag rfl, fieldsFirst,
        ofContent?_untyped, ofContent?_untyped, plain, normal, Option.map_some, dictionary]
      exact ⟨rfl, rfl⟩
    | some typeId =>
      rw [toTagged, normalize_tag, ofTagged?_tag rfl, ofTagged?_tag rfl, normalize_typed,
        normalize_toTaggedFields sorted, (ofContent?_typed typeId _).1,
        (ofContent?_typed typeId _).2, plain, normal, Option.map_some, dictionary]
      exact ⟨rfl, rfl⟩
  | handle h =>
    have content : h.toJson.normalize = h.toJson := by
      have keys : ("id" : String) < "type_id" := by decide
      exact congrArg Json.object (Dictionary.ofList_of_sorted (List.pairwise_pair.mpr keys))
    have read : ofContent? .handle h.toJson = (Handle.ofJson? h.toJson).map .handle := by
      rw [Handle.toJson, ofContent?]
    rw [toTagged, normalize_tag, ofTagged?_tag rfl, ofTagged?_tag rfl, content, read,
      Handle.ofJson?_toJson]
    exact ⟨rfl, rfl⟩

theorem ofTaggedItems?_toTaggedItems {items : List Value} (ordered : OrderedItems items)
    (finite : AllFiniteItems items) :
    ofTaggedItems? (toTaggedItems items) = some items ∧
      ofTaggedItems? (Json.normalizeItems (toTaggedItems items)) = some items := by
  cases items with
  | nil => exact ⟨rfl, rfl⟩
  | cons item rest =>
    obtain ⟨plain, normal⟩ := ofTagged?_toTagged ordered.1 finite.1
    obtain ⟨plains, normals⟩ := ofTaggedItems?_toTaggedItems ordered.2 finite.2
    simp only [toTaggedItems, Json.normalizeItems, ofTaggedItems?, plain, normal, plains, normals,
      and_self]

/-- Fields read back, also from names that were put in order. -/
theorem ofTaggedFields?_toTaggedFields {fields : List (String × Value)}
    (ordered : OrderedFields fields) (finite : AllFiniteFields fields) :
    ofTaggedFields? (toTaggedFields fields) = some fields ∧
      ofTaggedFields? (Json.normalizeEntries (toTaggedFields fields)) = some fields := by
  match fields with
  | [] => exact ⟨rfl, rfl⟩
  | (name, value) :: rest =>
    obtain ⟨plain, normal⟩ := ofTagged?_toTagged ordered.1 finite.1
    obtain ⟨plains, normals⟩ := ofTaggedFields?_toTaggedFields ordered.2 finite.2
    simp only [toTaggedFields, Json.normalizeEntries, ofTaggedFields?, plain, normal, plains,
      normals, and_self]

end

end Value

end Flowgraph
