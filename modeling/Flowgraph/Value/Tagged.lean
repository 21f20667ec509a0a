import Flowgraph.Json.Record
import Flowgraph.Value.Basic

namespace Flowgraph

namespace Value

/-- The kinds of value. -/
inductive Kind where
  | null
  | bool
  | int
  | float
  | string
  | array
  | object
  | handle
deriving DecidableEq, Repr

namespace Kind

def ofName? : String → Option Kind
  | "null" => some .null
  | "bool" => some .bool
  | "int" => some .int
  | "float" => some .float
  | "string" => some .string
  | "array" => some .array
  | "object" => some .object
  | "handle" => some .handle
  | _ => none

def ofJson? : Json → Option Kind := Json.asName? ofName?

end Kind

/-- A number as a double. -/
def floatOfJson? : Json → Option Float
  | .float x => some x
  | .int i => some (Number.ofInt i)
  | _ => none

end Value

namespace Handle

def toJson (h : Handle) : Json :=
  .object [("id", .string h.id.toText), ("type_id", .string h.typeId)]

def ofJson? (j : Json) : Option Handle := do
  match ← j.fields? ["id", "type_id"] with
  | [some id, some typeId] => some ⟨← id.asUuid?, ← typeId.asString?⟩
  | _ => none

end Handle

namespace Value

/-- An object of one kind and its content. -/
def tag (kind : String) (content : Json) : Json :=
  .object [("kind", .string kind), ("value", content)]

mutual

/-- The form that names the kind of a value, and so tells apart what literals fold together:
integers and doubles, handles and objects, type names and fields. -/
def toTagged : Value → Json
  | .null => .object [("kind", .string "null")]
  | .bool b => tag "bool" (.bool b)
  | .int i => tag "int" (.int i.toInt)
  | .float x => tag "float" (if x.isFinite then .float x else .null)
  | .string s => tag "string" (.string s)
  | .array items => tag "array" (.array (toTaggedItems items))
  | .object none fields => tag "object" (.object [("fields", .object (toTaggedFields fields))])
  | .object (some typeId) fields =>
    tag "object"
      (.object [("type", .string typeId), ("fields", .object (toTaggedFields fields))])
  | .handle h => tag "handle" h.toJson

def toTaggedItems : List Value → List Json
  | [] => []
  | item :: rest => item.toTagged :: toTaggedItems rest

def toTaggedFields : List (String × Value) → List (String × Json)
  | [] => []
  | (name, value) :: rest => (name, value.toTagged) :: toTaggedFields rest

end

/-- Whether a name comes before another among entries that hold the former. -/
def precedes (entries : List (String × Json)) (first second : String) : Bool :=
  match entries.find? fun entry => entry.1 = first || entry.1 = second with
  | some (name, _) => name = first
  | none => false

/-- The kind that tagged entries name. There is one such entry and at most one content. A content
that stands before its kind has to be readable throughout, since nothing yet says which parts of
it matter. -/
def kindOf? (entries : List (String × Json)) : Option Kind := do
  let kind ← (← Json.single? entries "kind").bind Kind.ofJson?
  match ← Json.single? entries "value" with
  | some content =>
    if precedes entries "value" "kind" && !content.readable then none else some kind
  | none => some kind

/-- The type name in the content of an object. -/
def contentTypeId? (entries : List (String × Json)) : Option (Option String) := do
  match ← Json.single? entries "type" with
  | none => some none
  | some j => Json.optional? Json.asString? j

mutual

/-- Reads a value from its tagged form. -/
def ofTagged? : Json → Option Value
  | .object entries =>
    match kindOf? entries with
    | some kind => ofTaggedEntries? kind entries
    | none => none
  | .array [kind, content] =>
    match Kind.ofJson? kind with
    | some kind => ofContent? kind content
    | none => none
  | _ => none

/-- Reads the content among the entries, which only null may lack. -/
def ofTaggedEntries? (kind : Kind) : List (String × Json) → Option Value
  | [] => if kind = .null then some .null else none
  | (name, j) :: rest => if name = "value" then ofContent? kind j else ofTaggedEntries? kind rest

/-- Reads the content of a value of a given kind. -/
def ofContent? (kind : Kind) : Json → Option Value
  | .array items =>
    match kind with
    | .array => (ofTaggedItems? items).map .array
    | .handle => (Handle.ofJson? (.array items)).map .handle
    | _ => none
  | .object entries =>
    match kind with
    | .object =>
      match contentTypeId? entries, Json.single? entries "fields", ofFieldsEntry? entries with
      | some typeId, some _, some fields => some (.object typeId (Dictionary.ofList fields))
      | _, _, _ => none
    | .handle => (Handle.ofJson? (.object entries)).map .handle
    | _ => none
  | .null => if kind = .null then some .null else none
  | .bool b => if kind = .bool then some (.bool b) else none
  | .int i =>
    match kind with
    | .int => (Json.asInt64? (.int i)).map .int
    | .float => some (.float (Number.ofInt i))
    | _ => none
  | .float x => if kind = .float then some (.float x) else none
  | .string s => if kind = .string then some (.string s) else none
  | .unreadable => none

def ofTaggedItems? : List Json → Option (List Value)
  | [] => some []
  | item :: rest =>
    match ofTagged? item, ofTaggedItems? rest with
    | some value, some values => some (value :: values)
    | _, _ => none

/-- Reads the fields out of the entry that holds them. -/
def ofFieldsEntry? : List (String × Json) → Option (List (String × Value))
  | [] => none
  | (name, j) :: rest => if name = "fields" then ofFieldsObject? j else ofFieldsEntry? rest

def ofFieldsObject? : Json → Option (List (String × Value))
  | .object fields => ofTaggedFields? fields
  | _ => none

def ofTaggedFields? : List (String × Json) → Option (List (String × Value))
  | [] => some []
  | (name, j) :: rest =>
    match ofTagged? j, ofTaggedFields? rest with
    | some value, some values => some ((name, value) :: values)
    | _, _ => none

end

end Value

namespace Vec2

def toJson (v : Vec2) : Json :=
  .object [("x", .float v.x), ("y", .float v.y)]

def ofJson? (j : Json) : Option Vec2 := do
  match ← j.fields? ["x", "y"] with
  | [some x, some y] => some ⟨← Value.floatOfJson? x, ← Value.floatOfJson? y⟩
  | _ => none

end Vec2

end Flowgraph
