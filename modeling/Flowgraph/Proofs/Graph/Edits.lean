import Flowgraph.Proofs.Graph.Integrity

namespace Flowgraph.Graph

variable {g h : Graph}

/-- Graphs of one skeleton have nodes of the same templates in the same slots. -/
theorem node?_of_skeleton {id : NodeId} {node : Node} (same : g.skeleton = h.skeleton)
    (live : g.node? id = some node) :
    ∃ twin, h.node? id = some twin ∧ twin.id = node.id ∧ twin.template = node.template := by
  have read := map_node?_of_strip same id
  rw [live] at read
  obtain ⟨twin, atId, bare⟩ := Option.map_eq_some_iff.mp read.symm
  exact ⟨twin, atId, (congrArg Node.id bare :), (congrArg Node.template bare :)⟩

theorem live_of_skeleton (same : g.skeleton = h.skeleton) : h.Live = g.Live := by
  funext id
  apply propext
  constructor
  · rintro ⟨node, live⟩
    obtain ⟨twin, atId, _⟩ := node?_of_skeleton same.symm live
    exact ⟨twin, atId⟩
  · rintro ⟨node, live⟩
    obtain ⟨twin, atId, _⟩ := node?_of_skeleton same live
    exact ⟨twin, atId⟩

theorem length_nodeList_of_skeleton (same : g.skeleton = h.skeleton) :
    h.nodeList.length = g.nodeList.length := by
  have count (f : Graph) : f.nodeList.length = f.skeleton.nodeList.length := by
    simp only [length_nodeList, skeleton, strip, Array.toList_map, List.countP_map,
      Function.comp_def, Option.isSome_map]
  rw [count h, count g, same]

/-- Integrity is a matter of the skeleton. -/
theorem Integrity.of_skeleton (whole : g.Integrity) (same : g.skeleton = h.skeleton) :
    h.Integrity := by
  have edges : h.edges = g.edges := (congrArg Graph.edges same).symm
  have adjacency : h.adjacency = g.adjacency := (congrArg Graph.adjacency same).symm
  have edge? (id : EdgeId) : h.edge? id = g.edge? id := by simp only [Graph.edge?, edges]
  have adjacentTo (id : NodeId) : h.adjacentTo id = g.adjacentTo id := by
    simp only [Graph.adjacentTo, adjacency]
  have live := live_of_skeleton same
  refine { toWoven := ?_, own_id := ?_, liveNodes := ?_ }
  · rw [live]
    constructor
    · have sizes := congrArg (·.nodes.size) same
      simp only [skeleton, strip, Array.size_map] at sizes
      rw [adjacency, whole.adjacency_size, sizes]
    · intro id edge atId
      obtain ⟨source, target, atSource, atTarget, output, input⟩ :=
        whole.ends id edge ((edge? id).symm.trans atId)
      obtain ⟨source', atSource', _, sourceTemplate⟩ := node?_of_skeleton same atSource
      obtain ⟨target', atTarget', _, targetTemplate⟩ := node?_of_skeleton same atTarget
      rw [← sourceTemplate] at output
      rw [← targetTemplate] at input
      exact ⟨source', target', atSource', atTarget', output, input⟩
    · intro a b edge edge' atA atB
      exact whole.single a b edge edge' ((edge? a).symm.trans atA) ((edge? b).symm.trans atB)
    · intro node kept
      rw [adjacentTo]
      exact (whole.incoming node kept).congr edge?
    · intro node kept
      rw [adjacentTo]
      exact (whole.outgoing node kept).congr edge?
    · intro node gone
      rw [adjacentTo]
      exact whole.unlisted node gone
    · have count : h.liveEdges = g.liveEdges := (congrArg Graph.liveEdges same).symm
      rw [count, whole.liveEdges]
      simp only [edgeList, edges]
  · intro id node atId
    obtain ⟨twin, atTwin, sameId, _⟩ := node?_of_skeleton same.symm atId
    exact sameId.symm.trans (whole.own_id id twin atTwin)
  · have count : h.liveNodes = g.liveNodes := (congrArg Graph.liveNodes same).symm
    rw [count, whole.liveNodes, length_nodeList_of_skeleton same]

theorem Integrity.of_program (whole : g.Integrity) (same : h.program = g.program) : h.Integrity :=
  whole.of_skeleton (skeleton_eq_of_program same.symm)

theorem integrity_empty (id : GraphId) (registry : Registry) (config : GraphConfig) :
    (empty id registry config).Integrity := by
  have none_edge (other : EdgeId) : (empty id registry config).edge? other = none := by
    simp [edge?, empty]
  have none_node (other : NodeId) : (empty id registry config).node? other = none := by
    simp [node?, empty]
  refine { toWoven := ?_, own_id := ?_, liveNodes := rfl }
  · constructor
    · rfl
    · intro other edge live
      simp [none_edge] at live
    · intro a b edge edge' live
      simp [none_edge] at live
    · rintro node ⟨_, live⟩
      simp [none_node] at live
    · rintro node ⟨_, live⟩
      simp [none_node] at live
    · intro node _
      simp [adjacentTo, empty]
    · rfl
  · intro other node live
    simp [none_node] at live

/-- A removed or future slot has no edges. -/
theorem Integrity.no_edges (whole : g.Integrity) {node : NodeId} (dead : ¬ g.Live node)
    {id : EdgeId} {edge : Edge} (live : g.edge? id = some edge) :
    edge.source ≠ node ∧ edge.target ≠ node := by
  obtain ⟨source, target, atSource, atTarget, _⟩ := whole.ends id edge live
  exact ⟨fun same => dead ⟨source, same ▸ atSource⟩, fun same => dead ⟨target, same ▸ atTarget⟩⟩

/-- The lists of a slot are right whether or not a node is there. -/
theorem Integrity.lists (whole : g.Integrity) (node : NodeId) :
    g.Lists (g.adjacentTo node).incoming (·.target = node) ∧
      g.Lists (g.adjacentTo node).outgoing (·.source = node) := by
  by_cases live : g.Live node
  · exact ⟨whole.incoming node live, whole.outgoing node live⟩
  · rw [whole.unlisted node live]
    refine ⟨⟨.nil, fun id => ?_⟩, ⟨.nil, fun id => ?_⟩⟩
    · simp only [List.not_mem_nil, false_iff, not_exists, not_and]
      exact fun edge atId => (whole.no_edges live atId).2
    · simp only [List.not_mem_nil, false_iff, not_exists, not_and]
      exact fun edge atId => (whole.no_edges live atId).1

/-- The graph with a node in the next slot, and with empty lists for it. -/
def withNode (g : Graph) (template : Template) : Graph :=
  { g with
    nodes := g.nodes.push (some (Node.stamp ⟨g.nodes.size⟩ template))
    adjacency := g.adjacency.push {}
    liveNodes := g.liveNodes + 1 }

theorem node?_withNode (g : Graph) (template : Template) (id : NodeId) :
    (g.withNode template).node? id =
      if id.index = g.nodes.size then some (Node.stamp ⟨g.nodes.size⟩ template) else g.node? id :=
  join_getElem?_push _ _ _

theorem node?_withNode_of_live {id : NodeId} {node : Node} (live : g.node? id = some node)
    (template : Template) : (g.withNode template).node? id = some node := by
  rw [node?_withNode, if_neg (Nat.ne_of_lt (index_lt_of_node? live)), live]

theorem adjacentTo_withNode (g : Graph) (template : Template) (id : NodeId) :
    (g.withNode template).adjacentTo id = g.adjacentTo id := by
  simp only [adjacentTo, withNode, Array.getElem?_push]
  split
  · rename_i last
    simp [last]
  · rfl

/-- A new node comes without edges, so that its lists are right as they are. -/
theorem Integrity.withNode (whole : g.Integrity) (template : Template) :
    (g.withNode template).Integrity := by
  have edge? (id : EdgeId) : (g.withNode template).edge? id = g.edge? id := rfl
  refine { toWoven := ?_, own_id := ?_, liveNodes := ?_ }
  · constructor
    · simp only [Graph.withNode, Array.size_push, whole.adjacency_size]
    · intro id edge live
      obtain ⟨source, target, atSource, atTarget, ports⟩ := whole.ends id edge live
      exact ⟨source, target, node?_withNode_of_live atSource template,
        node?_withNode_of_live atTarget template, ports⟩
    · exact whole.single
    · intro node _
      rw [adjacentTo_withNode]
      exact (whole.lists node).1.congr edge?
    · intro node _
      rw [adjacentTo_withNode]
      exact (whole.lists node).2.congr edge?
    · intro node dead
      rw [adjacentTo_withNode]
      apply whole.unlisted node
      rintro ⟨_, live⟩
      exact dead ⟨_, node?_withNode_of_live live template⟩
    · exact whole.liveEdges
  · intro id node live
    rw [node?_withNode] at live
    split at live
    · rename_i last
      cases live
      exact (NodeId.index_inj.mp last).symm
    · exact whole.own_id id node live
  · have counted := whole.liveNodes
    rw [length_nodeList] at counted ⊢
    simp only [Graph.withNode, countP_push_some, counted]

theorem Integrity.addNode (whole : g.Integrity) (name : String) :
    (g.addNode name).graph.Integrity := by
  apply whenIdle_graph g Integrity _ whole
  cases g.registry.get? name with
  | none => exact whole
  | some template => exact whole.withNode template

/-- The conditions of an edge: both ends known, both ports there, and the input free. -/
theorem checkEdge_eq_ok {source target : NodeRef} {output input : Nat} {ports : Port × Port} :
    g.checkEdge source output target input = .ok ports ↔
      (∃ s, g.resolve source = .ok s ∧ s.template.outputs[output]? = some ports.1) ∧
        (∃ t, g.resolve target = .ok t ∧ t.template.inputs[input]? = some ports.2) ∧
          ∀ edge ∈ g.incoming target.node, edge.input ≠ input := by
  unfold checkEdge port
  cases g.resolve source with
  | error => simp [bind, Except.bind]
  | ok s =>
    cases g.resolve target with
    | error => simp [bind, Except.bind]
    | ok t =>
      simp only [Except.ok.injEq, exists_eq_left', bind, Except.bind]
      cases s.template.outputs[output]? with
      | none => simp
      | some first =>
        cases t.template.inputs[input]? with
        | none => simp
        | some second =>
          have free : (∀ edge ∈ g.incoming target.node, edge.input ≠ input) ↔
              (g.incoming target.node).any (·.input == input) = false := by
            simp
          rw [free]
          cases (g.incoming target.node).any (·.input == input) with
          | false => simp [pure, Except.pure, Prod.ext_iff]
          | true => simp [throw, throwThe, MonadExceptOf.throw]

/-- The graph with an edge in the next slot and at the end of two lists. -/
def withEdge (g : Graph) (edge : Edge) : Graph :=
  { g with
    edges := g.edges.push (some edge)
    adjacency :=
      (g.adjacency.modify edge.source.index fun a =>
          { a with outgoing := a.outgoing ++ [⟨g.edges.size⟩] }).modify edge.target.index fun a =>
        { a with incoming := a.incoming ++ [⟨g.edges.size⟩] }
    liveEdges := g.liveEdges + 1 }

theorem edge?_withEdge (g : Graph) (edge : Edge) (id : EdgeId) :
    (g.withEdge edge).edge? id = if id.index = g.edges.size then some edge else g.edge? id :=
  join_getElem?_push _ _ _

/-- A new edge comes last in the two lists of its ends. -/
theorem Integrity.adjacentTo_withEdge (whole : g.Integrity) {edge : Edge}
    (source : g.Live edge.source) (target : g.Live edge.target) (node : NodeId) :
    (g.withEdge edge).adjacentTo node =
      { incoming := if edge.target = node then (g.adjacentTo node).incoming ++ [⟨g.edges.size⟩]
          else (g.adjacentTo node).incoming
        outgoing := if edge.source = node then (g.adjacentTo node).outgoing ++ [⟨g.edges.size⟩]
          else (g.adjacentTo node).outgoing } := by
  obtain ⟨s, atSource⟩ := source
  obtain ⟨t, atTarget⟩ := target
  have inside : edge.source.index < g.adjacency.size ∧ edge.target.index < g.adjacency.size := by
    rw [whole.adjacency_size]
    exact ⟨index_lt_of_node? atSource, index_lt_of_node? atTarget⟩
  have lists := adjacentTo_modify_ends g edge.source edge.target node (· ++ [⟨g.edges.size⟩])
    (Or.inl inside)
  simp only [Graph.withEdge, Graph.adjacentTo] at lists ⊢
  exact lists

/-- An edge may be added between ports that are there, to an input that is free. -/
theorem Integrity.withEdge (whole : g.Integrity) {edge : Edge} {s t : Node}
    (source : g.node? edge.source = some s) (target : g.node? edge.target = some t)
    (output : edge.output < s.template.outputs.length)
    (input : edge.input < t.template.inputs.length)
    (free : ∀ id old, g.edge? id = some old → old.target = edge.target → old.input ≠ edge.input) :
    (g.withEdge edge).Integrity := by
  have added := g.edge?_withEdge edge
  have adjacentTo := whole.adjacentTo_withEdge ⟨s, source⟩ ⟨t, target⟩
  refine { toWoven := ?_, own_id := whole.own_id, liveNodes := whole.liveNodes }
  constructor
  · simp only [Graph.withEdge, Array.size_modify, whole.adjacency_size]
  · intro id old live
    rw [added] at live
    split at live
    · cases live
      exact ⟨s, t, source, target, output, input⟩
    · exact whole.ends id old live
  · intro a b edgeA edgeB liveA liveB sameTarget sameInput
    rw [added] at liveA liveB
    split at liveA <;> split at liveB
    · rename_i lastA lastB
      exact EdgeId.index_inj.mp (lastA.trans lastB.symm)
    · cases liveA
      exact absurd sameInput.symm (free b edgeB liveB sameTarget.symm)
    · cases liveB
      exact absurd sameInput (free a edgeA liveA sameTarget)
    · exact whole.single a b edgeA edgeB liveA liveB sameTarget sameInput
  · intro node live
    rw [adjacentTo]
    exact (whole.incoming node live).append added
  · intro node live
    rw [adjacentTo]
    exact (whole.outgoing node live).append added
  · intro node dead
    have notTarget : edge.target ≠ node := fun same => dead ⟨t, same ▸ target⟩
    have notSource : edge.source ≠ node := fun same => dead ⟨s, same ▸ source⟩
    rw [adjacentTo, if_neg notTarget, if_neg notSource]
    exact whole.unlisted node dead
  · have counted := whole.liveEdges
    rw [length_edgeList] at counted ⊢
    simp only [Graph.withEdge, countP_push_some, counted]

/-- The list of edges into a node has exactly the edges that end there. -/
theorem Integrity.mem_incoming (whole : g.Integrity) {node : NodeId} {edge : Edge} :
    edge ∈ g.incoming node ↔ ∃ id, g.edge? id = some edge ∧ edge.target = node := by
  simp only [incoming, List.mem_filterMap, (whole.lists node).1.mem_iff]
  constructor
  · rintro ⟨id, ⟨found, live, ends⟩, read⟩
    cases live.symm.trans read
    exact ⟨id, live, ends⟩
  · rintro ⟨id, live, ends⟩
    exact ⟨id, ⟨edge, live, ends⟩, live⟩

theorem Integrity.mem_outgoing (whole : g.Integrity) {node : NodeId} {edge : Edge} :
    edge ∈ g.outgoing node ↔ ∃ id, g.edge? id = some edge ∧ edge.source = node := by
  simp only [outgoing, List.mem_filterMap, (whole.lists node).2.mem_iff]
  constructor
  · rintro ⟨id, ⟨found, live, starts⟩, read⟩
    cases live.symm.trans read
    exact ⟨id, live, starts⟩
  · rintro ⟨id, live, starts⟩
    exact ⟨id, ⟨edge, live, starts⟩, live⟩

theorem Integrity.addEdge (whole : g.Integrity) (source : NodeRef) (output : Nat)
    (target : NodeRef) (input : Nat) : (g.addEdge source output target input).graph.Integrity := by
  apply whenIdle_graph g Integrity _ whole
  cases checked : g.checkEdge source output target input with
  | error => exact whole
  | ok ports =>
    obtain ⟨⟨s, knownSource, outputPort⟩, ⟨t, knownTarget, inputPort⟩, free⟩ :=
      checkEdge_eq_ok.mp checked
    have joined : (g.withEdge ⟨source.node, output, target.node, input⟩).Integrity := by
      refine whole.withEdge (resolve_eq_ok.mp knownSource).2 (resolve_eq_ok.mp knownTarget).2
        (List.getElem?_eq_some_iff.mp outputPort).1 (List.getElem?_eq_some_iff.mp inputPort).1 ?_
      intro id old live ends
      exact free old (whole.mem_incoming.mpr ⟨id, live, ends⟩)
    exact joined

theorem Integrity.removeEdge (whole : g.Integrity) (id : EdgeId) :
    (g.removeEdge id).graph.Integrity := by
  apply whenIdle_graph g Integrity _ whole
  cases g.edge? id with
  | none => exact whole
  | some _ =>
    have nodes := g.node?_detachEdge id
    have live : (g.detachEdge id).Live = g.Live := by
      unfold Live
      rw [nodes]
    refine { toWoven := ?_, own_id := ?_, liveNodes := ?_ }
    · simp only [accept, live]
      exact whole.toWoven.detachEdge id
    · simp only [accept, nodes]
      exact whole.own_id
    · obtain ⟨sameNodes, sameCount⟩ := g.nodes_detachEdge id
      simp only [accept, nodeList, sameNodes, sameCount]
      exact whole.liveNodes

/-- With the lists of one node emptied, those of the others still agree with the edges. -/
theorem Integrity.cleared (whole : g.Integrity) (gone : NodeId) :
    ({ g with adjacency := g.adjacency.setIfInBounds gone.index {} } : Graph).Woven
      fun node => g.Live node ∧ node ≠ gone := by
  have adjacentTo (node : NodeId) :
      ({ g with adjacency := g.adjacency.setIfInBounds gone.index {} } : Graph).adjacentTo node =
        if node = gone then {} else g.adjacentTo node := by
    simp only [Graph.adjacentTo, Array.getElem?_setIfInBounds]
    by_cases same : node = gone
    · subst same
      simp only [if_true]
      split <;> rfl
    · have apart : gone.index ≠ node.index := fun equal => same (NodeId.index_inj.mp equal.symm)
      rw [if_neg apart, if_neg same]
  refine ⟨?_, whole.ends, whole.single, ?_, ?_, ?_, whole.liveEdges⟩
  · simp only [Array.size_setIfInBounds, whole.adjacency_size]
  · rintro node ⟨live, other⟩
    rw [adjacentTo, if_neg other]
    exact (whole.incoming node live).congr fun _ => rfl
  · rintro node ⟨live, other⟩
    rw [adjacentTo, if_neg other]
    exact (whole.outgoing node live).congr fun _ => rfl
  · intro node outside
    rw [adjacentTo]
    split
    · rfl
    · rename_i other
      exact whole.unlisted node fun live => outside ⟨live, other⟩

/-- The graph without a node whose lists are already empty. -/
def withoutNode (g : Graph) (gone : NodeId) : Graph :=
  { g with nodes := g.nodes.setIfInBounds gone.index none, liveNodes := g.liveNodes - 1 }

theorem node?_withoutNode (g : Graph) (gone node : NodeId) :
    (g.withoutNode gone).node? node = if node = gone then none else g.node? node := by
  simp only [node?, withoutNode, join_getElem?_setIfInBounds _ (Or.inr rfl), NodeId.index_inj]

theorem live_withoutNode (g : Graph) (gone : NodeId) :
    (g.withoutNode gone).Live = fun node => g.Live node ∧ node ≠ gone := by
  funext node
  simp only [Live, node?_withoutNode]
  by_cases same : node = gone
  · simp [same]
  · simp [same]

/-- Once no edge touches a node, the node may go. -/
theorem Woven.withoutNode {gone : NodeId} (woven : g.Woven fun node => g.Live node ∧ node ≠ gone)
    (bare : ∀ id edge, g.edge? id = some edge → edge.source ≠ gone ∧ edge.target ≠ gone) :
    (g.withoutNode gone).Woven (g.withoutNode gone).Live := by
  rw [live_withoutNode]
  refine ⟨?_, ?_, woven.single, ?_, ?_, woven.unlisted, woven.liveEdges⟩
  · simp only [Graph.withoutNode, Array.size_setIfInBounds, woven.adjacency_size]
  · intro id edge live
    obtain ⟨source, target⟩ := bare id edge live
    rw [node?_withoutNode, node?_withoutNode, if_neg source, if_neg target]
    exact woven.ends id edge live
  · exact fun node kept => (woven.incoming node kept).congr fun _ => rfl
  · exact fun node kept => (woven.outgoing node kept).congr fun _ => rfl

/-- A removal detaches the edges of the node before the node goes, so no edge is left without an
end. -/
theorem Integrity.removeNode (whole : g.Integrity) (ref : NodeRef) :
    (g.removeNode ref).graph.Integrity := by
  apply whenIdle_graph g Integrity _ whole
  cases found : g.resolve ref with
  | error => exact whole
  | ok removed =>
    have atGone := (resolve_eq_ok.mp found).2
    obtain ⟨woven, ⟨nodes, count⟩, edges⟩ := (whole.cleared ref.node).detachEdges
      ((g.adjacentTo ref.node).incoming ++ (g.adjacentTo ref.node).outgoing)
    simp only [accept]
    generalize List.foldl Graph.detachEdge _ _ = detached at woven nodes count edges ⊢
    have node? : detached.node? = g.node? := by
      funext id
      simp only [Graph.node?, nodes]
    have live : detached.Live = g.Live := by
      unfold Live
      rw [node?]
    rw [← live] at woven
    have bare (id : EdgeId) (edge : Edge) (atId : detached.edge? id = some edge) :
        edge.source ≠ ref.node ∧ edge.target ≠ ref.node := by
      rw [edges] at atId
      split at atId
      · cases atId
      rename_i kept
      rw [List.mem_append, not_or, (whole.lists ref.node).1.mem_iff,
        (whole.lists ref.node).2.mem_iff] at kept
      exact ⟨fun starts => kept.2 ⟨edge, atId, starts⟩, fun ends => kept.1 ⟨edge, atId, ends⟩⟩
    refine { toWoven := woven.withoutNode bare, own_id := ?_, liveNodes := ?_ }
    · intro id node atId
      have kept := detached.node?_withoutNode ref.node id
      rw [show (detached.withoutNode ref.node).node? id = some node from atId] at kept
      split at kept
      · cases kept
      · exact whole.own_id id node (node? ▸ kept.symm)
    · have counted := whole.liveNodes
      rw [length_nodeList] at counted ⊢
      simp only [nodes, count]
      rw [countP_setIfInBounds_none (node?_eq_some.mp atGone), counted]

theorem Integrity.loadNode (whole : g.Integrity) (saved : SavedNode) :
    (g.loadNode saved).graph.Integrity := by
  have added := whole.addNode saved.template
  unfold Graph.loadNode
  simp only
  split
  · exact added
  · split
    · exact added
    · rename_i live
      apply added.of_skeleton
      symm
      exact strip_setNode live rfl

theorem Integrity.loadNodes (whole : g.Integrity) (saved : List SavedNode) :
    (g.loadNodes saved).graph.Integrity := by
  induction saved generalizing g with
  | nil => exact whole
  | cons first rest ih =>
    have added := whole.loadNode first
    unfold Graph.loadNodes
    simp only
    split
    · exact added
    · exact ih added

theorem Integrity.loadEdges (whole : g.Integrity) (refs : List NodeRef) (saved : List SavedEdge) :
    (g.loadEdges refs saved).graph.Integrity := by
  induction saved generalizing g with
  | nil => exact whole
  | cons first rest ih =>
    unfold Graph.loadEdges
    split
    · rename_i source target _ _
      have added := whole.addEdge source first.output target first.input
      simp only
      split
      · exact added
      · exact ih added
    · exact ih whole

/-- Loading is a run of edits, each of which keeps integrity; so has what it leaves, also where it
fails. -/
theorem integrity_load (id : GraphId) (registry : Registry) (config : GraphConfig)
    (form : SavedGraph) : (load id registry config form).graph.Integrity := by
  have nodes := (integrity_empty id registry config).loadNodes form.nodes
  unfold load
  simp only
  split
  · exact integrity_empty id registry config
  · split
    · exact nodes
    · exact nodes.loadEdges _ form.edges

end Flowgraph.Graph
