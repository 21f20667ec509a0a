import Flowgraph.Graph.Notify

namespace Flowgraph

/-- A run as it happened: which node, on which inputs, with which outcome. -/
structure Execution where
  node : NodeId
  inputs : List Value
  outcome : RunOutcome

/-- What is reported of a completed tick. -/
structure TickReport where
  /-- The number of runs, those that faulted included. -/
  executions : Nat
  faults : List NodeFault
  /-- Whether the tick ended at its cap. -/
  overflowed : Bool

/-- Nothing went wrong. -/
def TickReport.isClean (report : TickReport) : Bool :=
  report.faults.isEmpty && !report.overflowed

/-- Why a tick gives no report. -/
inductive TickFailure where
  | refused (error : GraphError)
  /-- A crash escaped from a node; the graph stays as it was at that moment. -/
  | escaped
deriving DecidableEq, Repr

/-- What a tick gives back. -/
structure TickReply where
  result : Except TickFailure TickReport
  graph : Graph
  entity : Entity
  notices : List Notice := []

/-- The state of a tick between two runs. The nodes that are due stand in a queue, at first in order
of creation, and what a run makes due goes to its end. -/
structure Propagation where
  graph : Graph
  entity : Entity
  /-- The nodes that are due, in the order in which they will run. -/
  pending : List NodeId
  executions : Nat := 0
  trace : Array Execution := #[]
  faults : Array NodeFault := #[]
  notices : Array Notice := #[]

/-- How a propagation ends. -/
inductive Ending where
  /-- No node is due any more. -/
  | settled
  /-- Nodes are still due at the cap. -/
  | capped
  | escaped
deriving DecidableEq, Repr

namespace Graph

/-- The value on the wire that ends at an input, if there is one. Of several, the newest. -/
def wired? (g : Graph) (id : NodeId) (input : Nat) : Option Value :=
  ((g.incoming id).reverse.filter (·.input == input)).findSome? fun edge =>
    (g.node? edge.source).bind (·.output? edge.output)

/-- The inputs of a node: the stored results of the nodes wired to them, and zero where nothing is
wired. -/
def resolveInputs (g : Graph) (id : NodeId) : List Value :=
  match g.node? id with
  | none => []
  | some node =>
    node.template.inputs.zipIdx.map fun (port, input) => (g.wired? id input).getD port.type.zero

/-- Sets whether a node is due. -/
def setActive (g : Graph) (id : NodeId) (active : Bool) : Graph :=
  match g.node? id with
  | some node => g.setNode id { node with active }
  | none => g

/-- Whether an activating wire makes a node due: event nodes never become due by wires, and a node
that is due already stays in its place. -/
def awakens (g : Graph) (id : NodeId) : Bool :=
  match g.node? id with
  | some node => !node.template.isEvent && !node.active
  | none => false

/-- The ends of the edges at a node's activating outputs, in the order of the edges. -/
def activated (g : Graph) (id : NodeId) (activations : List Bool) : List NodeId :=
  ((g.outgoing id).filter fun edge => activations[edge.output]?.getD false).map (·.target)

/-- Makes targets due one after the other; those that were not go to the end of the queue. -/
def awaken (g : Graph) (pending : List NodeId) : List NodeId → Graph × List NodeId
  | [] => (g, pending)
  | target :: rest =>
    if g.awakens target then awaken (g.setActive target true) (pending ++ [target]) rest
    else awaken g pending rest

end Graph

namespace Propagation

/-- The nodes that are due when a tick begins. -/
def start (g : Graph) (entity : Entity) : Propagation :=
  { graph := { g with phase := .propagating }
    entity
    pending := (g.nodeList.filter (·.active)).map (·.id) }

/-- Records a fault of a node. -/
def fault (p : Propagation) (node : NodeId) (template : String) (kind : FaultKind) :
    Propagation :=
  { p with
    faults := p.faults.push ⟨node, template, kind⟩
    notices := p.notices.push (.fault kind) }

/-- Runs the given node, which was at the head of the queue. Its being due ends after the run and
before its targets are made due, so that it may be a target of itself. The second part says whether
the run escaped; its node is then still due. -/
def execute (p : Propagation) (keys : Keyboard) (world : World) (id : NodeId) :
    Propagation × Bool :=
  match p.graph.node? id with
  | none => ({ p with executions := p.executions + 1 }, false)
  | some node =>
    let inputs := p.graph.resolveInputs id
    let run := node.run inputs ⟨p.entity, keys, world⟩
    let ran : Propagation :=
      { p with
        entity := run.entity
        executions := p.executions + 1
        trace := p.trace.push ⟨id, inputs, run.outcome⟩
        notices := p.notices ++ (run.printed.map Notice.printed).toArray }
    let rested := p.graph.setNode id { run.node with active := false }
    match run.outcome with
    | .ran activations =>
      let (graph, pending) := rested.awaken p.pending (rested.activated id activations)
      ({ ran with graph, pending }, false)
    | .faulted kind => ({ ran with graph := rested }.fault id node.template.name kind, false)
    | .skipped => ({ ran with graph := rested }, false)
    | .escaped => ({ ran with pending := id :: p.pending }, true)

/-- Runs nodes from the queue, at most as many as the budget says. -/
def advance (keys : Keyboard) (world : World) :
    (budget : Nat) → Propagation → Propagation × Ending
  | budget, p =>
    match p.pending, budget with
    | [], _ => (p, .settled)
    | _ :: _, 0 => (p, .capped)
    | id :: rest, budget + 1 =>
      let (next, escaped) := { p with pending := rest }.execute keys world id
      if escaped then (next, .escaped) else advance keys world budget next

/-- Ends a tick at its cap: the node at the head of the queue is named, and none is due any more. -/
def abandon (p : Propagation) (cap : Nat) : Propagation :=
  let named :=
    match p.pending with
    | [] => p
    | id :: _ =>
      match p.graph.node? id with
      | some node => p.fault id node.template.name (.overflow cap)
      | none => p
  { named with
    graph := named.pending.foldl (fun g id => g.setActive id false) named.graph
    pending := [] }

/-- Closes a completed tick. -/
def finish (p : Propagation) (overflowed : Bool) : TickReply :=
  { result := .ok { executions := p.executions, faults := p.faults.toList, overflowed }
    graph := { p.graph with phase := .idle, ticks := p.graph.ticks + 1 }
    entity := p.entity
    notices := p.notices.toList }

end Propagation

namespace Graph

/-- The cap on the runs of a tick. -/
def cap (g : Graph) : Nat := g.config.cap g.liveNodes

/-- The runs of a tick, up to where it settles, meets its cap, or is cut short. -/
def propagate (g : Graph) (scene : Scene) : Propagation × Ending :=
  (Propagation.start g scene.entity).advance scene.keys scene.world g.cap

/-- Runs one tick: nodes are taken from the queue until none is left or the cap is met. What is
still in the queue then is no longer due afterwards. -/
def tick (g : Graph) (scene : Scene) : TickReply :=
  if g.isIdle then
    match g.propagate scene with
    | (p, .settled) => p.finish false
    | (p, .capped) => (p.abandon g.cap).finish true
    | (p, .escaped) =>
      { result := .error .escaped, graph := p.graph, entity := p.entity,
        notices := p.notices.toList }
  else
    { result := .error (.refused .propagating), graph := g, entity := scene.entity,
      notices := [.editWhilePropagating] }

/-- Tells of the clock, then runs a tick. -/
def step (g : Graph) (scene : Scene) : TickReply :=
  let told := g.notifyTick scene.world.delta
  match told.result with
  | .error e =>
    { result := .error (.refused e), graph := told.graph, entity := scene.entity,
      notices := told.notices }
  | .ok _ =>
    let reply := told.graph.tick scene
    { reply with notices := told.notices ++ reply.notices }

end Graph

end Flowgraph
