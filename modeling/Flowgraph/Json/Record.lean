import Flowgraph.Json.Basic
import Flowgraph.Uuid

namespace Flowgraph.Json

/-- The single entry of a name: nothing if there is none, and a failure if there are several. -/
def single? (entries : List (String × Json)) (name : String) : Option (Option Json) :=
  match entries.filter (·.1 = name) with
  | [] => some none
  | [(_, j)] => some (some j)
  | _ => none

/-- What is written for each of the named fields. An object may hold other entries, which nobody
looks at, but each field at most once; an array has the fields in order and may stop early, but not
go on. -/
def fields? (names : List String) : Json → Option (List (Option Json))
  | .object entries => names.mapM (single? entries)
  | .array items =>
    if items.length ≤ names.length then
      some (items.map some ++ List.replicate (names.length - items.length) none)
    else none
  | _ => none

/-- An object or array, as opposed to nothing: `null` is read as nothing. -/
def optional? {α : Type} (read : Json → Option α) : Json → Option (Option α)
  | .null => some none
  | j => (read j).map some

/-- What is written for a field, or a default where nothing is. -/
def orDefault? {α : Type} (read : Json → Option α) (default : α) : Option Json → Option α
  | none => some default
  | some j => read j

def asBool? : Json → Option Bool
  | .bool b => some b
  | _ => none

def asString? : Json → Option String
  | .string s => some s
  | _ => none

/-- A natural number below a bound. -/
def asNatBelow? (bound : Nat) : Json → Option Nat
  | .int i => if 0 ≤ i ∧ i < bound then some i.toNat else none
  | _ => none

/-- A number of 64 bits. -/
def asNat64? : Json → Option Nat := asNatBelow? UInt64.size

/-- A signed integer of 64 bits. -/
def asInt64? : Json → Option Int64
  | .int i => if Int64.minValue.toInt ≤ i ∧ i ≤ Int64.maxValue.toInt then some (.ofInt i) else none
  | _ => none

def asUuid? (j : Json) : Option Uuid :=
  j.asString?.bind Uuid.ofText?

/-- An array of which every item is read. -/
def asList? {α : Type} (read : Json → Option α) : Json → Option (List α)
  | .array items => items.mapM read
  | _ => none

/-- A name out of a list, written as such or as the only entry of an object that holds null. -/
def asName? {α : Type} (named : String → Option α) : Json → Option α
  | .string s => named s
  | .object [(s, .null)] => named s
  | _ => none

end Flowgraph.Json
