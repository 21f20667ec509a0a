import Flowgraph.Value.Tagged

namespace Flowgraph

/-- What kind of value a port is meant for. Checking a value (`accepts`), storing it (`coerce?`) and
wiring (`feeds`) are three different questions: a whole double passes an `int` port and is stored
there as an integer. -/
inductive PortType where
  /-- Any finite number. -/
  | number
  /-- Whole numbers. -/
  | int
  /-- Any number, read as a double. -/
  | float
  | string
  | bool
  /-- Objects, arrays, handles and null. -/
  | object
  /-- Whatever there is. -/
  | any
deriving DecidableEq, Repr

namespace PortType

def name : PortType → String
  | .number => "number"
  | .int => "int"
  | .float => "float"
  | .string => "string"
  | .bool => "bool"
  | .object => "object"
  | .any => "any"

def ofName? : String → Option PortType
  | "number" => some .number
  | "int" => some .int
  | "float" => some .float
  | "string" => some .string
  | "bool" => some .bool
  | "object" => some .object
  | "any" => some .any
  | _ => none

/-- Every type is read from its name. -/
theorem ofName?_name (t : PortType) : ofName? t.name = some t := by
  cases t <;> rfl

/-- Whether a value may pass a port of this type. -/
def accepts : PortType → Value → Bool
  | .any, _ => true
  | .number, .int _ => true
  | .number, .float x => x.isFinite
  | .number, _ => false
  | .int, v => v.asInt?.isSome
  | .float, v => v.isNumeric
  | .string, .string _ => true
  | .string, _ => false
  | .bool, .bool _ => true
  | .bool, _ => false
  | .object, .object .. | .object, .array _ | .object, .handle _ | .object, .null => true
  | .object, _ => false

/-- The form in which a port of this type stores a value that it accepts. -/
def coerce? (t : PortType) (v : Value) : Option Value :=
  if t.accepts v then
    match t, v with
    | .int, .float _ => v.asInt?.map .int
    | _, _ => some v
  else none

/-- What an input of this type receives while nothing is wired to it. -/
def zero : PortType → Value
  | .number | .int => .int 0
  | .float => .float 0
  | .string => .string ""
  | .bool => .bool false
  | .object | .any => .null

def isNumeric : PortType → Bool
  | .number | .int | .float => true
  | _ => false

/-- Whether an output of this type suits an input of the other. -/
def feeds (output input : PortType) : Bool :=
  output == input || output == .any || input == .any || output.isNumeric && input.isNumeric

def ofJson? : Json → Option PortType := Json.asName? ofName?

end PortType

/-- Whether values pass the types at their positions, one value for each type. -/
def validates (types : List PortType) (values : List Value) : Bool :=
  values.length == types.length && (values.zip types).all fun (v, t) => t.accepts v

/-- A named slot of a node. -/
structure Port where
  name : String
  type : PortType
  /-- What an editor may offer for this port; `key` asks for a key picker. -/
  hint : Option String := none
deriving DecidableEq, Repr

namespace Port

def types (ports : List Port) : List PortType := ports.map (·.type)

/-- The zero value of each port. -/
def zeros (ports : List Port) : List Value := ports.map (·.type.zero)

def toJson (p : Port) : Json :=
  .object
    ([("name", .string p.name), ("type", .string p.type.name)] ++
      (p.hint.toList.map fun hint => ("editorHint", .string hint)))

def ofJson? (j : Json) : Option Port := do
  match ← j.fields? ["name", "type", "editorHint"] with
  | [some name, some type, hint] =>
    some
      { name := ← name.asString?
        type := ← PortType.ofJson? type
        hint := ← Json.orDefault? (Json.optional? Json.asString?) none hint }
  | _ => none

end Port

end Flowgraph
