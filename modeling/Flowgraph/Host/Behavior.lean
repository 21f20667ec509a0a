import Flowgraph.Graph.Export
import Flowgraph.Graph.Tick

namespace Flowgraph

/-- A fault, and where it happened. -/
structure FaultRecord where
  tick : UInt64
  /-- The position of the graph in its behavior. -/
  graph : Nat
  fault : NodeFault

def FaultRecord.toJson (record : FaultRecord) : Json :=
  .object
    [("tick", .int record.tick.toNat),
     ("graph", .int record.graph),
     ("node", .int record.fault.node.index),
     ("template", .string record.fault.template),
     ("message", .string record.fault.kind.message)]

/-- What happened in an update, over all graphs. -/
structure UpdateSummary where
  executions : Nat := 0
  faults : List FaultRecord := []
  /-- How many graphs ended at their cap. -/
  overflows : Nat := 0

namespace UpdateSummary

/-- What happened in the tick of one graph. -/
def ofReport (tick : UInt64) (graph : Nat) (report : TickReport) : UpdateSummary where
  executions := report.executions
  faults := report.faults.map (⟨tick, graph, ·⟩)
  overflows := if report.overflowed then 1 else 0

def append (a b : UpdateSummary) : UpdateSummary where
  executions := a.executions + b.executions
  faults := a.faults ++ b.faults
  overflows := a.overflows + b.overflows

instance : Append UpdateSummary := ⟨append⟩

end UpdateSummary

/-- What an update gives back. -/
structure UpdateReply where
  result : Except TickFailure UpdateSummary
  graphs : List Graph
  entity : Entity
  notices : List Notice := []

/-- The graphs of an entity. -/
structure Behavior where
  graphs : List Graph := []

namespace Behavior

/-- Polls the sources of a graph and steps it. -/
def updateGraph (g : Graph) (scene : Scene) : TickReply :=
  let polled := g.activateSources
  match polled.result with
  | .error e =>
    { result := .error (.refused e), graph := polled.graph, entity := scene.entity,
      notices := polled.notices }
  | .ok _ =>
    let reply := polled.graph.step scene
    { reply with notices := polled.notices ++ reply.notices }

/-- Updates graphs of which the first is at the given position, each acting on the entity as the one
before left it. The first failure ends the update and leaves the graphs after it alone. -/
def updateFrom (scene : Scene) : (position : Nat) → List Graph → UpdateReply
  | _, [] => { result := .ok {}, graphs := [], entity := scene.entity }
  | position, g :: rest =>
    let reply := updateGraph g scene
    match reply.result with
    | .error failure =>
      { result := .error failure, graphs := reply.graph :: rest, entity := reply.entity,
        notices := reply.notices }
    | .ok report =>
      let others := updateFrom { scene with entity := reply.entity } (position + 1) rest
      { result := others.result.map (UpdateSummary.ofReport scene.world.tick position report ++ ·)
        graphs := reply.graph :: others.graphs
        entity := others.entity
        notices := reply.notices ++ others.notices }

/-- Updates every graph once. -/
def update (b : Behavior) (scene : Scene) : UpdateReply :=
  updateFrom scene 0 b.graphs

/-- The exports of all graphs. -/
def exports (b : Behavior) : List Export := b.graphs.flatMap Graph.exports

end Behavior

end Flowgraph
