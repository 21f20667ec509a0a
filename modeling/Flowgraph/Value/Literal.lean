import Flowgraph.Json.Basic
import Flowgraph.Json.Printer
import Flowgraph.Value.Basic

namespace Flowgraph.Value

/-- The name that holds the type name of an object. -/
def typeName : String := "__type__"

/-- The name that holds the identifier of a handle. -/
def handleName : String := "__handle__"

mutual

/-- The literal of a value, the form in which saved graphs hold settings. A double that is no finite
number has none of its own and is written as null. -/
def toLiteral : Value → Json
  | .null => .null
  | .bool b => .bool b
  | .int i => .int i.toInt
  | .float x => if x.isFinite then .float x else .null
  | .string s => .string s
  | .array items => .array (toLiterals items)
  | .object none fields => .object (toLiteralFields fields)
  | .object (some typeId) fields =>
    .object (Dictionary.insert typeName (.string typeId) (toLiteralFields fields))
  | .handle h => .object [(handleName, .string h.id.toText), (typeName, .string h.typeId)]

def toLiterals : List Value → List Json
  | [] => []
  | item :: rest => item.toLiteral :: toLiterals rest

def toLiteralFields : List (String × Value) → List (String × Json)
  | [] => []
  | (name, value) :: rest => (name, value.toLiteral) :: toLiteralFields rest

end

/-- The string that the last entry of a name holds, if it holds one. -/
def lastString? (entries : List (String × Json)) (name : String) : Option String :=
  match Dictionary.last? entries name with
  | some (.string s) => some s
  | _ => none

/-- The handle that an object literal stands for, if it does. -/
def literalHandle? (entries : List (String × Json)) : Option Handle := do
  let text ← lastString? entries handleName
  let id ← Uuid.ofText? text
  let typeId ← lastString? entries typeName
  some ⟨id, typeId⟩

mutual

/-- The value of a literal. An integer beyond the signed range is read as a double. -/
def ofLiteral : Json → Value
  | .null | .unreadable => .null
  | .bool b => .bool b
  | .int i =>
    if i ≤ Int64.maxValue.toInt then .int (Int64.ofInt i) else .float (Number.ofInt i)
  | .float x => .float x
  | .string s => .string s
  | .array items => .array (ofLiterals items)
  | .object entries =>
    match literalHandle? entries with
    | some h => .handle h
    | none =>
      .object (lastString? entries typeName) (Dictionary.ofList (ofLiteralEntries entries))

def ofLiterals : List Json → List Value
  | [] => []
  | item :: rest => ofLiteral item :: ofLiterals rest

/-- The entries that are fields, which all are but the type name. -/
def ofLiteralEntries : List (String × Json) → List (String × Value)
  | [] => []
  | (name, j) :: rest =>
    if name = typeName then ofLiteralEntries rest
    else (name, ofLiteral j) :: ofLiteralEntries rest

end

/-- A value as shown to people: strings bare, doubles without exponent, and containers as their
literal. -/
def display : Value → String
  | .null => "null"
  | .bool b => if b then "true" else "false"
  | .int i => toString i.toInt
  | .float x => Number.plain.write x
  | .string s => s
  | .handle h => s!"<{h.typeId} {h.id.toText}>"
  | v => v.toLiteral.compact

end Flowgraph.Value
