import Flowgraph.Graph.Edit

namespace Flowgraph

/-- A node as it is saved: its template by name, and its settings. -/
structure SavedNode where
  template : String
  settings : List Value

/-- An edge as it is saved: its ends are positions in the list of nodes. -/
structure SavedEdge where
  source : Nat
  output : Nat
  target : Nat
  input : Nat
deriving DecidableEq, Repr

/-- A graph as it is saved: nodes with the names of their templates, and edges whose ends are
positions among them. -/
structure SavedGraph where
  nodes : List SavedNode := []
  edges : List SavedEdge := []

namespace SavedNode

/-- Whether an object has no entries but those of a tagged value, and names its kind. -/
def looksTagged (entries : List (String × Json)) : Bool :=
  (Value.lastString? entries "kind").isSome &&
    entries.all fun entry => entry.1 = "kind" || entry.1 = "value"

/-- A setting: a tagged value if it looks like one and can be read as one, and else a literal. -/
def settingOfJson? (j : Json) : Option Value :=
  if j.readable then
    match j.normalize with
    | .object entries =>
      if looksTagged entries then
        some ((Value.ofTagged? (.object entries)).getD (Value.ofLiteral (.object entries)))
      else some (Value.ofLiteral (.object entries))
    | literal => some (Value.ofLiteral literal)
  else none

def toJson (node : SavedNode) : Json :=
  .object
    [("template", .string node.template),
     ("internalValues", .array (Value.toLiterals node.settings))]

def ofJson? (j : Json) : Option SavedNode := do
  match ← j.fields? ["template", "internalValues"] with
  | [some template, settings] =>
    some
      { template := ← template.asString?
        settings := ← Json.orDefault? (Json.asList? settingOfJson?) [] settings }
  | _ => none

end SavedNode

namespace SavedEdge

def toJson (edge : SavedEdge) : Json :=
  .object
    [("src", .int edge.source), ("srcOut", .int edge.output), ("dst", .int edge.target),
     ("dstIn", .int edge.input)]

def ofJson? (j : Json) : Option SavedEdge := do
  match ← j.fields? ["src", "srcOut", "dst", "dstIn"] with
  | [some source, some output, some target, some input] =>
    some ⟨← source.asNat64?, ← output.asNat64?, ← target.asNat64?, ← input.asNat64?⟩
  | _ => none

end SavedEdge

namespace SavedGraph

def toJson (form : SavedGraph) : Json :=
  .object
    [("nodes", .array (form.nodes.map SavedNode.toJson)),
     ("edges", .array (form.edges.map SavedEdge.toJson))]

def ofJson? (j : Json) : Option SavedGraph := do
  match ← j.fields? ["nodes", "edges"] with
  | [nodes, edges] =>
    some
      { nodes := ← Json.orDefault? (Json.asList? SavedNode.ofJson?) [] nodes
        edges := ← Json.orDefault? (Json.asList? SavedEdge.ofJson?) [] edges }
  | _ => none

/-- The first edge, by position, with an end where no node is, and that end. -/
def missing? (form : SavedGraph) : Option (Nat × Nat) :=
  form.edges.zipIdx.findSome? fun (edge, index) =>
    if form.nodes.length ≤ edge.source then some (index, edge.source)
    else if form.nodes.length ≤ edge.target then some (index, edge.target)
    else none

end SavedGraph

namespace Graph

/-- The position of a node among the nodes of the graph. -/
def position? (g : Graph) (id : NodeId) : Option Nat :=
  g.nodeList.findIdx? (·.id == id)

/-- An edge with the positions of its ends. -/
def saveEdge? (g : Graph) (edge : Edge) : Option SavedEdge := do
  some ⟨← g.position? edge.source, edge.output, ← g.position? edge.target, edge.input⟩

/-- The saved form of a graph, with the nodes numbered anew in order of creation. Results and what
is due are not part of it. -/
def save (g : Graph) : SavedGraph where
  nodes := g.nodeList.map fun node => ⟨node.template.name, node.internals⟩
  edges := g.edgeList.filterMap fun (_, edge) => g.saveEdge? edge

/-- The settings of a node with saved ones in their places. One that its port refuses leaves the
setting as it was. -/
def restoreSettings (current : List Value) (ports : List Port) (saved : List Value) : List Value :=
  current.zipIdx.map fun (value, index) =>
    match ports[index]?, saved[index]? with
    | some port, some v => (port.type.coerce? v).getD value
    | _, _ => value

/-- What is to be noticed when settings are restored. -/
def restoreNotices (ports : List Port) (saved : List Value) : List Notice :=
  (if ports.length < saved.length then [.extraSettings] else []) ++
    (ports.zip saved).filterMap fun (port, value) =>
      if (port.type.coerce? value).isSome then none
      else some (.savedMisfit value.kindName port.type)

/-- The first saved setting that its port accepts and for which the node has no place. -/
def firstUnplaced? (node : Node) (saved : List Value) : Option Nat :=
  (node.template.internals.zip saved).zipIdx.findSome? fun ((port, value), index) =>
    if node.internals.length ≤ index ∧ (port.type.coerce? value).isSome then some index else none

/-- Adds a saved node with its settings. -/
def loadNode (g : Graph) (saved : SavedNode) : Reply NodeRef :=
  let added := g.addNode saved.template
  match added.result with
  | .error _ => added
  | .ok ref =>
    match added.graph.node? ref.node with
    | none => added
    | some node =>
      let ports := node.template.internals
      { result :=
          match firstUnplaced? node saved.settings with
          | none => .ok ref
          | some index => .error (.missingSetting ref.node index)
        graph := added.graph.setNode ref.node
          { node with internals := restoreSettings node.internals ports saved.settings }
        notices := added.notices ++ restoreNotices ports saved.settings }

/-- Adds saved nodes up to the first that cannot be added. -/
def loadNodes (g : Graph) : List SavedNode → Reply (List NodeRef)
  | [] => g.accept []
  | saved :: rest =>
    let first := g.loadNode saved
    match first.result with
    | .error e => { result := .error e, graph := first.graph, notices := first.notices }
    | .ok ref =>
      let others := loadNodes first.graph rest
      { result := others.result.map (ref :: ·)
        graph := others.graph
        notices := first.notices ++ others.notices }

/-- Adds saved edges up to the first that cannot be added. -/
def loadEdges (g : Graph) (refs : List NodeRef) : List SavedEdge → Reply Unit
  | [] => g.accept ()
  | saved :: rest =>
    match refs[saved.source]?, refs[saved.target]? with
    | some source, some target =>
      let first := g.addEdge source saved.output target saved.input
      match first.result with
      | .error e => { result := .error e, graph := first.graph, notices := first.notices }
      | .ok _ =>
        let others := loadEdges first.graph refs rest
        { others with notices := first.notices ++ others.notices }
    | _, _ => loadEdges g refs rest

/-- Rebuilds a graph from its saved form by the calls of an editor, so that every check of an edit
is a check of a saved graph. Edges without ends are found before anything is built. -/
def load (id : GraphId) (registry : Registry) (config : GraphConfig) (form : SavedGraph) :
    Reply Unit :=
  let fresh := empty id registry config
  match form.missing? with
  | some (edge, index) => fresh.refuse (.missingNode edge index)
  | none =>
    let nodes := fresh.loadNodes form.nodes
    match nodes.result with
    | .error e => { result := .error e, graph := nodes.graph, notices := nodes.notices }
    | .ok refs =>
      let edges := nodes.graph.loadEdges refs form.edges
      { edges with notices := nodes.notices ++ edges.notices }

end Graph

end Flowgraph
