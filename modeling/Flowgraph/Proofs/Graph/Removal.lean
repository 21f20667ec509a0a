import Flowgraph.Proofs.Graph.Lifetime
import Flowgraph.Proofs.Graph.Order

namespace Flowgraph

/-- Whether an edge starts or ends at a node. -/
def Edge.touches (node : NodeId) (edge : Edge) : Bool :=
  edge.source = node || edge.target = node

namespace Graph

variable {g h : Graph} {gone : Edge → Bool}

/-- The slots of the edges that a predicate holds of are empty, and the others are as they were. -/
def Lacks (g h : Graph) (gone : Edge → Bool) : Prop :=
  ∀ id, h.edge? id = (g.edge? id).filter fun edge => !gone edge

/-- A graph less the edges that a predicate holds of. The others have their numbers, their order and
their places in the lists of their ends. -/
structure Without (g h : Graph) (gone : Edge → Bool) : Prop where
  edges : h.edgeList = g.edgeList.filter fun entry => !gone entry.2
  lists : ∀ node, h.adjacentTo node =
    { incoming := (g.adjacentTo node).incoming.filter fun id => !(g.edge? id).any gone
      outgoing := (g.adjacentTo node).outgoing.filter fun id => !(g.edge? id).any gone }
  incoming : ∀ node, h.incoming node = (g.incoming node).filter fun edge => !gone edge
  outgoing : ∀ node, h.outgoing node = (g.outgoing node).filter fun edge => !gone edge
  liveEdges : h.liveEdges + g.edgeList.countP (fun entry => gone entry.2) = g.liveEdges

theorem Lacks.edgeList (lacks : g.Lacks h gone) :
    h.edgeList = g.edgeList.filter fun entry => !gone entry.2 := by
  refine eq_of_ascending (fun entry => entry.1.index) h.edgeList_ascending
    (g.edgeList_ascending.filter _) fun ⟨id, edge⟩ => ?_
  rw [List.mem_filter, mem_edgeList, mem_edgeList, lacks, Option.filter_eq_some_iff]

theorem Lacks.wires (lacks : g.Lacks h gone) : h.wires = g.wires.filter fun edge => !gone edge := by
  rw [← edgeList_map_snd, lacks.edgeList, ← edgeList_map_snd, List.filter_map]
  rfl

/-- The numbers in a list at a node, less those of the edges that are gone. -/
theorem Lacks.lists (lacks : g.Lacks h gone) {old new : List EdgeId} {holds : Edge → Prop}
    (before : g.Lists old holds) (after : h.Lists new holds) :
    new = old.filter fun id => !(g.edge? id).any gone := by
  refine eq_of_ascending EdgeId.index after.ascending (before.ascending.filter _) fun id => ?_
  rw [List.mem_filter, after.mem_iff, before.mem_iff, lacks]
  cases g.edge? id with
  | none => simp
  | some edge => simp [Option.filter_eq_some_iff, and_comm]

/-- All that is read off a graph is filtered by what was taken. -/
theorem Lacks.without (lacks : g.Lacks h gone) (whole : g.Integrity) (rest : h.Integrity) :
    g.Without h gone := by
  refine ⟨lacks.edgeList, fun node => ?_, fun node => ?_, fun node => ?_, ?_⟩
  · rw [← lacks.lists (whole.lists node).1 (rest.lists node).1,
      ← lacks.lists (whole.lists node).2 (rest.lists node).2]
  · rw [rest.incoming_eq, whole.incoming_eq, lacks.wires, List.filter_filter, List.filter_filter]
    simp only [Bool.and_comm]
  · rw [rest.outgoing_eq, whole.outgoing_eq, lacks.wires, List.filter_filter, List.filter_filter]
    simp only [Bool.and_comm]
  · rw [rest.liveEdges, whole.liveEdges, lacks.edgeList, List.countP_eq_length_filter, Nat.add_comm,
      ← List.length_eq_length_filter_add]

/-- Removing a node takes just the edges that touch it, an edge from it to itself once. -/
theorem Integrity.lacks_removeNode (whole : g.Integrity) {ref : NodeRef}
    (answer : (g.removeNode ref).result = .ok ()) :
    g.Lacks (g.removeNode ref).graph (Edge.touches ref.node) := by
  intro id
  rcases whole.removeNode_cases ref with ⟨⟨e, failed⟩, _⟩ | ⟨_, _, _, edges, _⟩
  · cases failed.symm.trans answer
  · rw [edges]
    congr 1
    funext edge
    simp [Edge.touches]

theorem edgeList_detachEdge (g : Graph) (id : EdgeId) :
    (g.detachEdge id).edgeList = g.edgeList.filter fun entry => entry.1 ≠ id := by
  refine eq_of_ascending (fun entry => entry.1.index) (g.detachEdge id).edgeList_ascending
    (g.edgeList_ascending.filter _) fun ⟨other, edge⟩ => ?_
  rw [List.mem_filter, mem_edgeList, mem_edgeList, edge?_detachEdge]
  by_cases same : other = id <;> simp [same]

/-- No other edge ends at the same input, so an edge is gone exactly with its number. -/
theorem Integrity.lacks_detachEdge (whole : g.Integrity) {id : EdgeId} {edge : Edge}
    (live : g.edge? id = some edge) : g.Lacks (g.detachEdge id) (· = edge) := by
  intro other
  rw [edge?_detachEdge]
  by_cases same : other = id
  · subst same
    simp [live, Option.filter]
  · rw [if_neg same]
    cases atOther : g.edge? other with
    | none => rfl
    | some twin =>
      have apart : twin ≠ edge := by
        rintro rfl
        exact same (whole.single other id twin twin atOther live rfl rfl)
      simp [Option.filter, apart]

theorem Integrity.mem_nodeList (whole : g.Integrity) {node : Node} :
    node ∈ g.nodeList ↔ g.node? node.id = some node := by
  rw [whole.live_iff_mem, and_iff_left rfl]

/-- Removing a node takes it from the list of nodes and leaves the others in order. -/
theorem Integrity.nodeList_of_node? (whole : g.Integrity) (rest : h.Integrity) {gone : NodeId}
    (nodes : ∀ id, h.node? id = if id = gone then none else g.node? id) :
    h.nodeList = g.nodeList.filter fun node => node.id ≠ gone := by
  refine eq_of_ascending (fun node => node.id.index) rest.ascending (whole.ascending.filter _)
    fun node => ?_
  rw [List.mem_filter, rest.mem_nodeList, whole.mem_nodeList, nodes]
  by_cases same : node.id = gone <;> simp [same]

/-- What stands at one place only of an ascending list is counted once. -/
theorem countP_eq_one {α : Type} (key : α → Nat) {xs : List α} {p : α → Bool} {a : α}
    (ascending : xs.Pairwise fun x y => key x < key y) (only : ∀ x, x ∈ xs ∧ p x ↔ x = a) :
    xs.countP p = 1 := by
  have filtered : xs.filter p = [a] :=
    eq_of_ascending key (ascending.filter _) (List.pairwise_singleton _ _) fun x => by
      rw [List.mem_filter, only, List.mem_singleton]
  rw [List.countP_eq_length_filter, filtered]
  rfl

theorem Integrity.countP_node (whole : g.Integrity) {id : NodeId} {node : Node}
    (live : g.node? id = some node) : g.nodeList.countP (fun other => other.id = id) = 1 := by
  refine countP_eq_one (a := node) (fun other => other.id.index) whole.ascending fun other => ?_
  rw [whole.mem_nodeList, decide_eq_true_eq]
  constructor
  · rintro ⟨atOther, rfl⟩
    exact Option.some.inj (atOther.symm.trans live)
  · rintro rfl
    have own := whole.own_id id other live
    exact ⟨own ▸ live, own⟩

theorem Integrity.countP_edge (whole : g.Integrity) {id : EdgeId} {edge : Edge}
    (live : g.edge? id = some edge) :
    g.edgeList.countP (fun entry => decide (entry.2 = edge)) = 1 := by
  refine countP_eq_one (a := (id, edge)) (fun entry => entry.1.index) g.edgeList_ascending
    fun ⟨other, twin⟩ => ?_
  rw [mem_edgeList, decide_eq_true_eq, Prod.mk.injEq]
  constructor
  · rintro ⟨atOther, rfl⟩
    exact ⟨whole.single other id twin twin atOther live rfl rfl, rfl⟩
  · rintro ⟨rfl, rfl⟩
    exact ⟨live, rfl⟩

/-- The removal of a node takes the node and the edges that touch it, each once, also one that
starts and ends there. The removal of an edge takes that edge. All else is left as it was and in its
order. -/
theorem removal_exact (reach : g.Reachable) (idle : g.isIdle = true) :
    (∀ ref node, g.find? ref = some node →
      (g.removeNode ref).result = .ok () ∧ ∃ left, (g.removeNode ref).graph = left ∧
        left.nodeList = g.nodeList.filter (fun other => other.id ≠ ref.node) ∧
        (∀ id, left.node? id = if id = ref.node then none else g.node? id) ∧
        g.Without left (Edge.touches ref.node) ∧
        left.liveNodes + 1 = g.liveNodes ∧ left.surroundings = g.surroundings) ∧
      ∀ id edge, g.edge? id = some edge →
        (g.removeEdge id).result = .ok () ∧ ∃ left, (g.removeEdge id).graph = left ∧
          left.edgeList = g.edgeList.filter (fun entry => entry.1 ≠ id) ∧
          (∀ node, left.adjacentTo node =
            { incoming := if edge.target = node then (g.adjacentTo node).incoming.filter (· ≠ id)
                else (g.adjacentTo node).incoming
              outgoing := if edge.source = node then (g.adjacentTo node).outgoing.filter (· ≠ id)
                else (g.adjacentTo node).outgoing }) ∧
          g.Without left (fun other => other = edge) ∧
          left.nodes = g.nodes ∧ left.liveEdges + 1 = g.liveEdges ∧
          left.liveNodes = g.liveNodes ∧ left.surroundings = g.surroundings := by
  have whole := reach.integrity
  constructor
  · intro ref node found
    have rest := whole.removeNode ref
    have live := (resolve_eq_ok.mp (resolve_of_find? found)).2
    have answer : (g.removeNode ref).result = .ok () := by
      rw [removeNode, whenIdle_of_idle idle, resolve_of_find? found]
      rfl
    rcases whole.removeNode_cases ref with ⟨⟨e, failed⟩, _⟩ | ⟨_, _, nodes, _⟩
    · cases failed.symm.trans answer
    have nodeList := whole.nodeList_of_node? rest nodes
    have liveNodes : (g.removeNode ref).graph.liveNodes + 1 = g.liveNodes := by
      rw [rest.liveNodes, whole.liveNodes, nodeList, ← whole.countP_node live,
        List.countP_eq_length_filter, Nat.add_comm]
      simp only [ne_eq, decide_not, ← List.length_eq_length_filter_add]
    exact ⟨answer, _, rfl, nodeList, nodes, (whole.lacks_removeNode answer).without whole rest,
      liveNodes, Call.surroundings_after (.removeNode ref) trivial g⟩
  · intro id edge live
    have rest := whole.removeEdge id
    have reply : g.removeEdge id = accept (g.detachEdge id) () := by
      rw [removeEdge, whenIdle_of_idle idle, live]
    rw [reply] at rest ⊢
    have without := (whole.lacks_detachEdge live).without whole rest
    have liveEdges := without.liveEdges
    rw [whole.countP_edge live] at liveEdges
    obtain ⟨nodes, liveNodes⟩ := g.nodes_detachEdge id
    exact ⟨rfl, _, rfl, g.edgeList_detachEdge id, adjacentTo_detachEdge live, without, nodes,
      liveEdges, liveNodes, (detachEdges_frame [id] g).2⟩

/-- A relay that feeds itself, beside the detour. -/
def looped : Graph := (extended.addEdge ⟨⟨0⟩, ⟨4⟩⟩ 0 ⟨⟨0⟩, ⟨4⟩⟩ 0).graph

/-- The loop goes with its node and counts once. Of the two edges into the join, only the one from
the relay goes with the relay. -/
theorem removal_exact_looped :
    looped.Reachable ∧ looped.isIdle = true ∧ looped.liveEdges = 4 ∧
      (looped.removeNode ⟨⟨0⟩, ⟨4⟩⟩).graph.liveEdges + 1 = looped.liveEdges ∧
      looped.incoming ⟨3⟩ = [⟨⟨1⟩, 0, ⟨3⟩, 0⟩, ⟨⟨2⟩, 0, ⟨3⟩, 1⟩] ∧
      (looped.removeNode ⟨⟨0⟩, ⟨2⟩⟩).graph.incoming ⟨3⟩ = [⟨⟨1⟩, 0, ⟨3⟩, 0⟩] ∧
      (looped.removeEdge ⟨4⟩).graph.adjacentTo ⟨4⟩ = {} := by
  have reach : looped.Reachable :=
    (reachable_detour.call (.addNode "Relay")).call (.addEdge ⟨⟨0⟩, ⟨4⟩⟩ 0 ⟨⟨0⟩, ⟨4⟩⟩ 0)
  obtain ⟨node, edge⟩ := removal_exact reach rfl
  obtain ⟨_, _, rfl, _, _, looped, _⟩ := node ⟨⟨0⟩, ⟨4⟩⟩ _ rfl
  obtain ⟨_, _, rfl, _, _, relayed, _⟩ := node ⟨⟨0⟩, ⟨2⟩⟩ _ rfl
  obtain ⟨_, _, rfl, _, lists, _⟩ := edge ⟨4⟩ _ rfl
  exact ⟨reach, rfl, rfl, looped.liveEdges, rfl, relayed.incoming ⟨3⟩, lists ⟨4⟩⟩

end Graph

end Flowgraph
