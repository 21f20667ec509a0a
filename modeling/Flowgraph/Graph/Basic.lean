import Flowgraph.Graph.Node
import Flowgraph.Template.Registry

namespace Flowgraph

/-- A wire from an output to an input. -/
structure Edge where
  source : NodeId
  output : Nat
  target : NodeId
  input : Nat
deriving DecidableEq, Repr

/-- The edges at a node, oldest first. -/
structure Adjacency where
  incoming : List EdgeId := []
  outgoing : List EdgeId := []
deriving DecidableEq, Repr

/-- Whether a graph may be changed. -/
inductive Phase where
  | idle
  /-- A tick has begun and not completed. -/
  | propagating
deriving DecidableEq, Repr

/-- The settings of execution. -/
structure GraphConfig where
  /-- A tick runs at most this many times the number of nodes. -/
  capFactor : Nat := 10
deriving DecidableEq, Repr

namespace GraphConfig

/-- The largest count that a cap can be. -/
def maxCap : Nat := UInt64.size - 1

/-- How many runs a tick of a graph of so many nodes may take. -/
def cap (config : GraphConfig) (nodes : Nat) : Nat := min (config.capFactor * nodes) maxCap

def toJson (config : GraphConfig) : Json :=
  .object [("iteration_cap_factor", .int config.capFactor)]

def ofJson? (j : Json) : Option GraphConfig := do
  match ← j.fields? ["iteration_cap_factor"] with
  | [factor] => some { capFactor := ← Json.orDefault? Json.asNat64? 10 factor }
  | _ => none

end GraphConfig

/-- A graph. Nodes and edges stand in slots that are never used again, so the order of slots is that
of creation and a removed one leaves its slot empty. What is in the slots, in the edge lists and in
the counters says the same thing three times, and every change of a graph keeps it so. -/
structure Graph where
  id : GraphId
  registry : Registry
  config : GraphConfig := {}
  nodes : Array (Option Node) := #[]
  adjacency : Array Adjacency := #[]
  edges : Array (Option Edge) := #[]
  liveNodes : Nat := 0
  liveEdges : Nat := 0
  phase : Phase := .idle
  /-- The number of completed ticks. -/
  ticks : Nat := 0

/-- What a call on a graph gives back: a result or an error, the graph afterwards, and notices. -/
structure Reply (α : Type) where
  result : Except GraphError α
  graph : Graph
  notices : List Notice := []

namespace Graph

/-- A graph without nodes. -/
def empty (id : GraphId) (registry : Registry) (config : GraphConfig) : Graph :=
  { id, registry, config }

def isIdle (g : Graph) : Bool := g.phase == .idle

def isEmpty (g : Graph) : Bool := g.liveNodes == 0

/-- The node in a slot. -/
def node? (g : Graph) (id : NodeId) : Option Node := g.nodes[id.index]?.join

/-- The node of a reference. No graph knows nodes of another. -/
def find? (g : Graph) (ref : NodeRef) : Option Node :=
  if ref.graph = g.id then g.node? ref.node else none

/-- The reference to a node of this graph. -/
def ref (g : Graph) (id : NodeId) : NodeRef := ⟨g.id, id⟩

/-- The edge in a slot. -/
def edge? (g : Graph) (id : EdgeId) : Option Edge := g.edges[id.index]?.join

/-- The nodes, oldest first. -/
def nodeList (g : Graph) : List Node := g.nodes.toList.filterMap fun slot => slot

/-- The edges with their numbers, oldest first. -/
def edgeList (g : Graph) : List (EdgeId × Edge) :=
  g.edges.toList.zipIdx.filterMap fun (edge, index) => edge.map fun e => (⟨index⟩, e)

/-- The edge lists of a node's slot. -/
def adjacentTo (g : Graph) (id : NodeId) : Adjacency := g.adjacency[id.index]?.getD {}

/-- The edges that end at a node, oldest first. -/
def incoming (g : Graph) (id : NodeId) : List Edge := (g.adjacentTo id).incoming.filterMap g.edge?

/-- The edges that start at a node, oldest first. -/
def outgoing (g : Graph) (id : NodeId) : List Edge := (g.adjacentTo id).outgoing.filterMap g.edge?

/-- The edges that end and that start at a referenced node, none for an unknown one. -/
def edgesAt (g : Graph) (ref : NodeRef) : List Edge × List Edge :=
  match g.find? ref with
  | some _ => (g.incoming ref.node, g.outgoing ref.node)
  | none => ([], [])

/-- The node of a reference, or why there is none. -/
def resolve (g : Graph) (ref : NodeRef) : Except GraphError Node :=
  if ref.graph = g.id then
    match g.node? ref.node with
    | some node => .ok node
    | none => .error (.unknownNode ref.node)
  else .error (.foreignNode g.id ref.graph)

/-- A call that is refused and changes nothing. -/
def refuse {α : Type} (g : Graph) (error : GraphError) : Reply α :=
  { result := .error error, graph := g }

/-- A call that succeeds. -/
def accept {α : Type} (g : Graph) (value : α) (notices : List Notice := []) : Reply α :=
  { result := .ok value, graph := g, notices }

/-- Refuses a call while a tick is propagating. Every edit asks this before it looks at anything
else. -/
@[macro_inline] def whenIdle {α : Type} (g : Graph) (call : Reply α) : Reply α :=
  if g.isIdle then call
  else { result := .error .propagating, graph := g, notices := [.editWhilePropagating] }

/-- Puts a node in its slot. -/
def setNode (g : Graph) (id : NodeId) (node : Node) : Graph :=
  { g with nodes := g.nodes.setIfInBounds id.index (some node) }

/-- Changes every node that a predicate holds of, and counts them. -/
def changeWhere (g : Graph) (holds : Node → Bool) (change : Node → Node) : Nat × Graph :=
  (g.nodeList.countP holds,
   { g with nodes := g.nodes.map (·.map fun node => if holds node then change node else node) })

end Graph

end Flowgraph
