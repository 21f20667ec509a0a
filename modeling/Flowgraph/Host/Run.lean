import Flowgraph.Graph.Saved
import Flowgraph.Host.Behavior
import Flowgraph.Host.Config
import Flowgraph.Json.Parser

namespace Flowgraph

/-- Why a text gives no graph. -/
inductive LoadError where
  /-- The text is no saved graph. -/
  | malformed
  | refused (error : GraphError)
deriving DecidableEq, Repr

/-- Loads a graph over the built-in templates from a JSON text. -/
def Graph.ofText (id : GraphId) (config : GraphConfig) (text : String) : Except LoadError Graph :=
  match (Json.parse? text).bind SavedGraph.ofJson? with
  | none => .error .malformed
  | some form =>
    let loaded := Graph.load id Registry.builtin config form
    match loaded.result with
    | .ok _ => .ok loaded.graph
    | .error e => .error (.refused e)

/-- What tuning gives back; the result is how many values were written. -/
structure TuneReply where
  result : Except GraphError Nat
  graphs : List Graph
  notices : List Notice := []

namespace Behavior

/-- Tunes graphs one after the other up to the first refusal. -/
def tuneGraphs (values : Dictionary Value) : List Graph → TuneReply
  | [] => { result := .ok 0, graphs := [] }
  | g :: rest =>
    let reply := g.applyExports values
    match reply.result with
    | .error e => { result := .error e, graphs := reply.graph :: rest, notices := reply.notices }
    | .ok written =>
      let others := tuneGraphs values rest
      { result := others.result.map (written + ·)
        graphs := reply.graph :: others.graphs
        notices := reply.notices ++ others.notices }

/-- Tunes all graphs. It is noticed when fewer values were written than there are names. -/
def applyExports (b : Behavior) (values : Dictionary Value) : TuneReply :=
  if values.isEmpty then { result := .ok 0, graphs := b.graphs }
  else
    let tuned := tuneGraphs values b.graphs
    match tuned.result with
    | .error _ => tuned
    | .ok written =>
      if written < values.length then
        { tuned with notices := tuned.notices ++ [.unmatchedOverrides] }
      else tuned

end Behavior

/-- What a run has come to. -/
structure RunState where
  behavior : Behavior
  entity : Entity
  executions : Nat := 0
  faults : Array FaultRecord := #[]
  overflows : Nat := 0

/-- What is left to report when a run is over. -/
structure RunReport where
  entity : Entity
  exports : List Export
  ticks : UInt64
  executions : Nat
  faults : List FaultRecord
  overflows : Nat

def RunReport.toJson (report : RunReport) : Json :=
  .object
    [("entity", report.entity.toJson),
     ("exports", .array (report.exports.map Export.toJson)),
     ("ticks", .int report.ticks.toNat),
     ("executions", .int report.executions),
     ("faults", .array (report.faults.map FaultRecord.toJson)),
     ("overflows", .int report.overflows)]

/-- A run that broke off: in which tick, and why. -/
structure RunFailure where
  tick : UInt64
  failure : TickFailure

namespace RunState

/-- One tick: all graphs, then the entity. -/
def tick (state : RunState) (keys : PressedKeys) (delta : Float) (tick : UInt64) :
    Except TickFailure RunState :=
  let world : World := { tick, delta, elapsed := Number.ofInt tick.toNat * delta }
  let reply := state.behavior.update { entity := state.entity, keys, world }
  match reply.result with
  | .error failure => .error failure
  | .ok summary =>
    .ok
      { behavior := ⟨reply.graphs⟩
        entity := reply.entity.integrate delta
        executions := state.executions + summary.executions
        faults := state.faults ++ summary.faults.toArray
        overflows := state.overflows + summary.overflows }

/-- So many ticks, of which the first has the given number. -/
def ticks (keys : PressedKeys) (delta : Float) :
    (count : Nat) → (first : UInt64) → RunState → Except RunFailure RunState
  | 0, _, state => .ok state
  | count + 1, first, state =>
    match state.tick keys delta first with
    | .error failure => .error ⟨first, failure⟩
    | .ok next => ticks keys delta count (first + 1) next

end RunState

/-- Runs graphs as configured, and sums up what happened. -/
def Behavior.run (b : Behavior) (entity : Entity) (config : HostConfig) :
    Except RunFailure RunReport :=
  let start : RunState := { behavior := b, entity }
  match RunState.ticks (PressedKeys.ofList config.keys) config.delta config.ticks.toNat 0 start with
  | .error failure => .error failure
  | .ok state =>
    .ok
      { entity := state.entity
        exports := state.behavior.exports
        ticks := config.ticks
        executions := state.executions
        faults := state.faults.toList
        overflows := state.overflows }

end Flowgraph
