import Flowgraph.Graph.Basic

namespace Flowgraph.Graph

/-- Stamps out a node from a template of the registry. -/
def addNode (g : Graph) (templateName : String) : Reply NodeRef :=
  g.whenIdle <|
    match g.registry.get? templateName with
    | none => g.refuse (.unknownTemplate templateName)
    | some template =>
      let id : NodeId := ⟨g.nodes.size⟩
      accept
        { g with
          nodes := g.nodes.push (some (Node.stamp id template))
          adjacency := g.adjacency.push {}
          liveNodes := g.liveNodes + 1 }
        (g.ref id)

/-- Takes an edge out of its slot and out of the lists of both its ends. -/
def detachEdge (g : Graph) (id : EdgeId) : Graph :=
  match g.edge? id with
  | none => g
  | some edge =>
    { g with
      edges := g.edges.setIfInBounds id.index none
      adjacency :=
        (g.adjacency.modify edge.source.index fun a =>
            { a with outgoing := a.outgoing.filter (· ≠ id) }).modify edge.target.index fun a =>
          { a with incoming := a.incoming.filter (· ≠ id) }
      liveEdges := g.liveEdges - 1 }

/-- Removes a node and every edge at it. -/
def removeNode (g : Graph) (ref : NodeRef) : Reply Unit :=
  g.whenIdle <|
    match g.resolve ref with
    | .error e => g.refuse e
    | .ok _ =>
      let slot := ref.node.index
      let adjacent := g.adjacentTo ref.node
      let cleared := { g with adjacency := g.adjacency.setIfInBounds slot {} }
      let detached := (adjacent.incoming ++ adjacent.outgoing).foldl detachEdge cleared
      accept
        { detached with
          nodes := detached.nodes.setIfInBounds slot none
          liveNodes := detached.liveNodes - 1 }
        ()

/-- A port by its index, or the error that there is none. -/
def port (node : NodeId) (side : PortSide) (ports : List Port) (index : Nat) :
    Except GraphError Port :=
  match ports[index]? with
  | some port => .ok port
  | none => .error (.invalidPort node side index ports.length)

/-- The ports that a new edge would join, if nothing speaks against it: source, target, output,
input and that the input is free, in this order. The first that fails is the error. The types of the
ports never are one. -/
def checkEdge (g : Graph) (source : NodeRef) (output : Nat) (target : NodeRef) (input : Nat) :
    Except GraphError (Port × Port) := do
  let sourceNode ← g.resolve source
  let targetNode ← g.resolve target
  let outputPort ← port source.node .output sourceNode.template.outputs output
  let inputPort ← port target.node .input targetNode.template.inputs input
  if (g.incoming target.node).any (·.input == input) then
    throw (.inputTaken target.node input)
  pure (outputPort, inputPort)

/-- Joins an output to an input. Port types that do not suit each other are worth a notice. -/
def addEdge (g : Graph) (source : NodeRef) (output : Nat) (target : NodeRef) (input : Nat) :
    Reply EdgeId :=
  g.whenIdle <|
    match g.checkEdge source output target input with
    | .error e => g.refuse e
    | .ok (outputPort, inputPort) =>
      let id : EdgeId := ⟨g.edges.size⟩
      accept
        { g with
          edges := g.edges.push (some ⟨source.node, output, target.node, input⟩)
          adjacency :=
            (g.adjacency.modify source.node.index fun a =>
                { a with outgoing := a.outgoing ++ [id] }).modify target.node.index fun a =>
              { a with incoming := a.incoming ++ [id] }
          liveEdges := g.liveEdges + 1 }
        id
        (if outputPort.type.feeds inputPort.type then []
          else [.looseWire outputPort.type inputPort.type])

/-- Removes an edge. -/
def removeEdge (g : Graph) (id : EdgeId) : Reply Unit :=
  g.whenIdle <|
    match g.edge? id with
    | none => g.refuse (.unknownEdge id)
    | some _ => accept (g.detachEdge id) ()

/-- Sets a setting of a node, in the form in which its port stores the value. -/
def setInternal (g : Graph) (ref : NodeRef) (index : Nat) (value : Value) : Reply Unit :=
  g.whenIdle <|
    match g.resolve ref with
    | .error e => g.refuse e
    | .ok node =>
      match port ref.node .internal node.template.internals index with
      | .error e => g.refuse e
      | .ok port =>
        match port.type.coerce? value with
        | none => g.refuse (.settingMismatch ref.node index port.type value.kindName)
        | some stored =>
          match node.withInternal? index stored with
          | none => g.refuse (.missingSetting ref.node index)
          | some changed => accept (g.setNode ref.node changed) ()

/-- Makes a node due in the next tick. Event nodes wait for their notification. -/
def activate (g : Graph) (ref : NodeRef) : Reply Unit :=
  g.whenIdle <|
    match g.resolve ref with
    | .error e => g.refuse e
    | .ok node =>
      if node.template.isEvent then g.refuse (.eventActivation ref.node)
      else accept (g.setNode ref.node { node with active := true }) ()

end Flowgraph.Graph
