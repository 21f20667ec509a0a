import Flowgraph.Value.Tagged

namespace Flowgraph

/-- The state of the world around the entity, which graphs may know and never change. -/
structure World where
  /-- The number of the tick. -/
  tick : UInt64 := 0
  /-- Seconds since the tick before. -/
  delta : Float := 0
  /-- Seconds since the start. -/
  elapsed : Float := 0
  values : Dictionary Value := []

namespace World

def value? (world : World) (key : String) : Option Value :=
  Dictionary.get? world.values key

def toJson (world : World) : Json :=
  .object
    [("tick", .int world.tick.toNat),
     ("delta", .float world.delta),
     ("elapsed", .float world.elapsed),
     ("values", .object (Value.toTaggedFields world.values))]

def ofJson? (j : Json) : Option World := do
  match ← j.fields? ["tick", "delta", "elapsed", "values"] with
  | [some tick, some delta, some elapsed, values] =>
    some
      { tick := (← tick.asNat64?).toUInt64
        delta := ← Value.floatOfJson? delta
        elapsed := ← Value.floatOfJson? elapsed
        values := Dictionary.ofList (← Json.orDefault? Value.ofFieldsObject? [] values) }
  | _ => none

end World

end Flowgraph
