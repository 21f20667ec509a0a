import Flowgraph.Dictionary
import Flowgraph.Uuid
import Flowgraph.Vec2

namespace Flowgraph

/-- The name of a scene actor. -/
structure Handle where
  id : Uuid
  /-- The kind of actor, such as `entity`. -/
  typeId : String
deriving DecidableEq, Repr

/-- A value on a wire, in a setting or in a stored result. It never holds a scene actor, only a
`Handle` that names one. -/
inductive Value where
  | null
  | bool (b : Bool)
  | int (i : Int64)
  | float (x : Float)
  | string (s : String)
  | array (items : List Value)
  | object (typeId : Option String) (fields : List (String × Value))
  | handle (h : Handle)
deriving Inhabited

namespace Value

mutual

/-- The fields of every object, at every depth, are a dictionary. -/
def Ordered : Value → Prop
  | .array items => OrderedItems items
  | .object _ fields => Dictionary.Sorted fields ∧ OrderedFields fields
  | _ => True

def OrderedItems : List Value → Prop
  | [] => True
  | item :: rest => item.Ordered ∧ OrderedItems rest

def OrderedFields : List (String × Value) → Prop
  | [] => True
  | (_, value) :: rest => value.Ordered ∧ OrderedFields rest

end

mutual

/-- Equality of values as data: numbers compare as doubles do, so no value that holds a NaN equals
itself and both zeros are equal, and an integer never equals a double. -/
def same : Value → Value → Bool
  | .null, .null => true
  | .bool a, .bool b => a == b
  | .int a, .int b => a == b
  | .float a, .float b => a == b
  | .string a, .string b => a == b
  | .array a, .array b => sameItems a b
  | .object s a, .object t b => s == t && sameFields a b
  | .handle a, .handle b => a == b
  | _, _ => false

def sameItems : List Value → List Value → Bool
  | [], [] => true
  | a :: as, b :: bs => a.same b && sameItems as bs
  | _, _ => false

def sameFields : List (String × Value) → List (String × Value) → Bool
  | [], [] => true
  | (k, a) :: as, (l, b) :: bs => k == l && a.same b && sameFields as bs
  | _, _ => false

end

/-- The name of a value's kind. -/
def kindName : Value → String
  | .null => "null"
  | .bool _ => "bool"
  | .int _ => "int"
  | .float _ => "float"
  | .string _ => "string"
  | .array _ => "array"
  | .object .. => "object"
  | .handle _ => "handle"

def isNull : Value → Bool
  | .null => true
  | _ => false

def isNumeric : Value → Bool
  | .int _ | .float _ => true
  | _ => false

def asBool? : Value → Option Bool
  | .bool b => some b
  | _ => none

/-- A number as an integer. A double has to be whole, and one beyond the range of integers gives
the nearest end of that range. -/
def asInt? : Value → Option Int64
  | .int i => some i
  | .float x => (Binary64.ofFloat x).toInt?.map Int64.ofIntClamp
  | _ => none

/-- A number as the nearest double. -/
def asFloat? : Value → Option Float
  | .int i => some (Number.ofInt i.toInt)
  | .float x => some x
  | _ => none

def asString? : Value → Option String
  | .string s => some s
  | _ => none

def asHandle? : Value → Option Handle
  | .handle h => some h
  | _ => none

/-- A field of an object. -/
def field? (v : Value) (name : String) : Option Value :=
  match v with
  | .object _ fields => Dictionary.get? fields name
  | _ => none

/-- The type name of an object that has one. -/
def typeId? : Value → Option String
  | .object typeId _ => typeId
  | _ => none

end Value

namespace Vec2

/-- The type name of vectors. -/
def typeId : String := "Vec2"

/-- Why a value is no vector: the kind of value that it is. -/
structure Mismatch where
  actual : String

def Mismatch.message (m : Mismatch) : String :=
  s!"Expected {typeId}, got {m.actual}"

/-- The object that a vector travels as. -/
def toValue (v : Vec2) : Value :=
  .object (some typeId) [("x", .float v.x), ("y", .float v.y)]

/-- Reads an object with numbers `x` and `y`, and with no type name or that of vectors. -/
def ofValue (v : Value) : Except Mismatch Vec2 :=
  let named := v.typeId?
  if named = none ∨ named = some typeId then
    match (v.field? "x").bind Value.asFloat?, (v.field? "y").bind Value.asFloat? with
    | some x, some y => .ok ⟨x, y⟩
    | _, _ => .error ⟨v.kindName⟩
  else .error ⟨v.kindName⟩

end Vec2

def Value.asVec2? (v : Value) : Option Vec2 :=
  (Vec2.ofValue v).toOption

end Flowgraph
