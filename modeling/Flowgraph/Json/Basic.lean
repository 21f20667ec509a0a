import Flowgraph.Dictionary

namespace Flowgraph

/-- A JSON text as a tree, which keeps what the text says and no more: the entries of an object stay
in text order and may repeat a name, and whole numbers are told apart from others. -/
inductive Json where
  | null
  | bool (b : Bool)
  /-- A whole number written without point and exponent, from `-2 ^ 63` to `2 ^ 64 - 1`. -/
  | int (i : Int)
  | float (x : Float)
  | string (s : String)
  | array (items : List Json)
  | object (entries : List (String × Json))
  /-- What is well formed and yet denotes nothing: a number outside the range of doubles, a string
  with half of a surrogate pair, an object with such a name, or a container nested too deeply. -/
  | unreadable
deriving Inhabited

namespace Json

mutual

/-- Whether every part of the tree denotes something. -/
def readable : Json → Bool
  | .unreadable => false
  | .array items => readableItems items
  | .object entries => readableEntries entries
  | _ => true

def readableItems : List Json → Bool
  | [] => true
  | item :: rest => item.readable && readableItems rest

def readableEntries : List (String × Json) → Bool
  | [] => true
  | (_, value) :: rest => value.readable && readableEntries rest

end

mutual

/-- Every object with its names in order, the last entry of each, and null for every double that is
no finite number. -/
def normalize : Json → Json
  | .float x => if x.isFinite then .float x else .null
  | .array items => .array (normalizeItems items)
  | .object entries => .object (Dictionary.ofList (normalizeEntries entries))
  | j => j

def normalizeItems : List Json → List Json
  | [] => []
  | item :: rest => item.normalize :: normalizeItems rest

def normalizeEntries : List (String × Json) → List (String × Json)
  | [] => []
  | (name, value) :: rest => (name, value.normalize) :: normalizeEntries rest

end

/-- How deeply containers may nest. -/
def deepest : Nat := 127

end Json

end Flowgraph
