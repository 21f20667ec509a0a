import Flowgraph.Proofs.Graph.Frame

namespace Flowgraph.Graph

/-- The live edges that a predicate holds of, each once and oldest first. -/
structure Lists (g : Graph) (ids : List EdgeId) (holds : Edge → Prop) : Prop where
  ascending : ids.Pairwise (·.index < ·.index)
  mem_iff : ∀ id, id ∈ ids ↔ ∃ edge, g.edge? id = some edge ∧ holds edge

/-- The edges and the lists at the nodes agree. A node outside `listed` has empty lists. -/
structure Woven (g : Graph) (listed : NodeId → Prop) : Prop where
  adjacency_size : g.adjacency.size = g.nodes.size
  /-- Both ends of a live edge are at ports of live nodes. -/
  ends : ∀ id edge, g.edge? id = some edge → ∃ source target,
    g.node? edge.source = some source ∧ g.node? edge.target = some target ∧
      edge.output < source.template.outputs.length ∧ edge.input < target.template.inputs.length
  /-- No input has two live edges. -/
  single : ∀ a b edge edge', g.edge? a = some edge → g.edge? b = some edge' →
    edge.target = edge'.target → edge.input = edge'.input → a = b
  incoming : ∀ node, listed node → g.Lists (g.adjacentTo node).incoming (·.target = node)
  outgoing : ∀ node, listed node → g.Lists (g.adjacentTo node).outgoing (·.source = node)
  unlisted : ∀ node, ¬ listed node → g.adjacentTo node = {}
  liveEdges : g.liveEdges = g.edgeList.length

/-- A node that is in its slot. -/
def Live (g : Graph) (id : NodeId) : Prop := ∃ node, g.node? id = some node

/-- The five views of a graph agree. The lists that are kept are those of the live nodes, so a
removed slot has none. -/
structure Integrity (g : Graph) : Prop extends Woven g g.Live where
  own_id : ∀ id node, g.node? id = some node → node.id = id
  liveNodes : g.liveNodes = g.nodeList.length

variable {g h : Graph} {listed : NodeId → Prop}

theorem Lists.congr {ids : List EdgeId} {holds : Edge → Prop} (lists : g.Lists ids holds)
    (same : ∀ id, h.edge? id = g.edge? id) : h.Lists ids holds :=
  ⟨lists.ascending, fun id => by rw [same, lists.mem_iff]⟩

theorem Lists.erase {ids : List EdgeId} {holds : Edge → Prop} {gone : EdgeId}
    (lists : g.Lists ids holds)
    (erased : ∀ id, h.edge? id = if id = gone then none else g.edge? id) :
    h.Lists (ids.filter (· ≠ gone)) holds := by
  refine ⟨lists.ascending.filter _, fun id => ?_⟩
  simp only [List.mem_filter, lists.mem_iff, erased, decide_eq_true_eq]
  by_cases same : id = gone
  · simp [same]
  · simp [same]

/-- With an edge in the next slot, a list is right again once the number of that edge stands at its
end, if the edge belongs there. -/
theorem Lists.append {ids : List EdgeId} {holds : Edge → Prop} {edge : Edge}
    [Decidable (holds edge)] (lists : g.Lists ids holds)
    (added : ∀ id : EdgeId, h.edge? id =
      if id.index = g.edges.size then some edge else g.edge? id) :
    h.Lists (if holds edge then ids ++ [⟨g.edges.size⟩] else ids) holds := by
  have old (id : EdgeId) (member : id ∈ ids) : id.index < g.edges.size := by
    obtain ⟨_, live, _⟩ := (lists.mem_iff id).mp member
    exact index_lt_of_edge? live
  have fresh : (⟨g.edges.size⟩ : EdgeId) ∉ ids := fun member => Nat.lt_irrefl _ (old _ member)
  constructor
  · split
    · rw [List.pairwise_append]
      refine ⟨lists.ascending, List.pairwise_singleton _ _, ?_⟩
      intro id member last equal
      rw [List.mem_singleton.mp equal]
      exact old id member
    · exact lists.ascending
  · intro id
    rw [added]
    by_cases last : id.index = g.edges.size
    · have same : id = ⟨g.edges.size⟩ := EdgeId.index_inj.mp last
      subst same
      by_cases here : holds edge
      · simp [here]
      · simp [here, fresh]
    · have different : id ≠ ⟨g.edges.size⟩ := fun equal => last (congrArg EdgeId.index equal)
      rw [if_neg last, ← lists.mem_iff]
      by_cases here : holds edge
      · simp [here, different]
      · simp [here]

/-- The lists of a slot after those of one slot were changed. -/
theorem getD_modify {lists : Array Adjacency} {slot : Nat} {change : Adjacency → Adjacency}
    (index : Nat) (inside : slot < lists.size ∨ change {} = {}) :
    (lists.modify slot change)[index]?.getD {} =
      if index = slot then change (lists[index]?.getD {}) else lists[index]?.getD {} := by
  rw [Array.getElem?_modify]
  by_cases same : index = slot
  · subst same
    simp only [if_true]
    rcases inside with bound | empty
    · rw [Array.getElem?_eq_getElem bound]
      rfl
    · cases lists[index]? with
      | none => exact empty.symm
      | some _ => rfl
  · rw [if_neg (Ne.symm same), if_neg same]

/-- What changing the lists at the two ends of an edge makes of the lists of a node. -/
theorem adjacentTo_modify_ends (g : Graph) (source target node : NodeId)
    (change : List EdgeId → List EdgeId)
    (inside : source.index < g.adjacency.size ∧ target.index < g.adjacency.size ∨ change [] = []) :
    ({ g with
        adjacency := (g.adjacency.modify source.index fun a =>
          { a with outgoing := change a.outgoing }).modify target.index fun a =>
            { a with incoming := change a.incoming } } : Graph).adjacentTo node =
      { incoming := if target = node then change (g.adjacentTo node).incoming
          else (g.adjacentTo node).incoming
        outgoing := if source = node then change (g.adjacentTo node).outgoing
          else (g.adjacentTo node).outgoing } := by
  have index (other : NodeId) : node.index = other.index ↔ other = node := by
    rw [NodeId.index_inj, eq_comm]
  have sourceInside : source.index < g.adjacency.size ∨
      ({ incoming := [], outgoing := change [] } : Adjacency) = {} :=
    inside.imp And.left fun empty => by rw [empty]
  have targetInside : target.index < (g.adjacency.modify source.index fun a =>
      { a with outgoing := change a.outgoing }).size ∨
      ({ incoming := change [], outgoing := [] } : Adjacency) = {} := by
    rw [Array.size_modify]
    exact inside.imp And.right fun empty => by rw [empty]
  simp only [adjacentTo]
  rw [getD_modify _ targetInside, getD_modify _ sourceInside]
  simp only [index]
  split <;> split <;> rfl

theorem node?_detachEdge (g : Graph) (id : EdgeId) : (g.detachEdge id).node? = g.node? := by
  unfold detachEdge
  split <;> rfl

theorem nodes_detachEdge (g : Graph) (id : EdgeId) :
    (g.detachEdge id).nodes = g.nodes ∧ (g.detachEdge id).liveNodes = g.liveNodes := by
  unfold detachEdge
  split <;> exact ⟨rfl, rfl⟩

/-- Detaching an edge empties its slot and no other. -/
theorem edge?_detachEdge (g : Graph) (id other : EdgeId) :
    (g.detachEdge id).edge? other = if other = id then none else g.edge? other := by
  unfold detachEdge
  cases live : g.edge? id with
  | none =>
    simp only
    by_cases same : other = id
    · subst same; simp [live]
    · simp [same]
  | some edge =>
    simp only [edge?, join_getElem?_setIfInBounds _ (Or.inr rfl), EdgeId.index_inj]

theorem Woven.mem_incoming {node : NodeId} {id : EdgeId} (woven : g.Woven listed)
    (member : id ∈ (g.adjacentTo node).incoming) :
    ∃ edge, g.edge? id = some edge ∧ edge.target = node := by
  by_cases kept : listed node
  · exact ((woven.incoming node kept).mem_iff id).mp member
  · simp [woven.unlisted node kept] at member

theorem Woven.mem_outgoing {node : NodeId} {id : EdgeId} (woven : g.Woven listed)
    (member : id ∈ (g.adjacentTo node).outgoing) :
    ∃ edge, g.edge? id = some edge ∧ edge.source = node := by
  by_cases kept : listed node
  · exact ((woven.outgoing node kept).mem_iff id).mp member
  · simp [woven.unlisted node kept] at member

/-- Detaching an edge takes its number out of one list of each of its ends. -/
theorem adjacentTo_detachEdge {id : EdgeId} {edge : Edge} (live : g.edge? id = some edge)
    (node : NodeId) :
    (g.detachEdge id).adjacentTo node =
      { incoming := if edge.target = node then (g.adjacentTo node).incoming.filter (· ≠ id)
          else (g.adjacentTo node).incoming
        outgoing := if edge.source = node then (g.adjacentTo node).outgoing.filter (· ≠ id)
          else (g.adjacentTo node).outgoing } := by
  have lists := adjacentTo_modify_ends g edge.source edge.target node (·.filter (· ≠ id))
    (Or.inr rfl)
  simp only [detachEdge, live]
  exact lists

/-- The number of a detached edge leaves every list it was in, and it was only in those of its two
ends. -/
theorem Woven.adjacentTo_detachEdge (woven : g.Woven listed) (id : EdgeId) (node : NodeId) :
    (g.detachEdge id).adjacentTo node =
      { incoming := (g.adjacentTo node).incoming.filter (· ≠ id)
        outgoing := (g.adjacentTo node).outgoing.filter (· ≠ id) } := by
  have keep (ids : List EdgeId) (absent : id ∉ ids) : ids.filter (· ≠ id) = ids :=
    List.filter_eq_self.mpr fun other member =>
      decide_eq_true fun same => absent (same ▸ member)
  cases live : g.edge? id with
  | none =>
    rw [keep _ fun member => ?_, keep _ fun member => ?_]
    · simp only [detachEdge, live]
    · obtain ⟨edge, atId, _⟩ := woven.mem_outgoing member
      exact Option.some_ne_none edge (atId.symm.trans live)
    · obtain ⟨edge, atId, _⟩ := woven.mem_incoming member
      exact Option.some_ne_none edge (atId.symm.trans live)
  | some edge =>
    rw [Graph.adjacentTo_detachEdge live]
    congr 1
    · split
      · rfl
      · rename_i elsewhere
        refine (keep _ fun member => elsewhere ?_).symm
        obtain ⟨other, atId, ends⟩ := woven.mem_incoming member
        cases live.symm.trans atId
        exact ends
    · split
      · rfl
      · rename_i elsewhere
        refine (keep _ fun member => elsewhere ?_).symm
        obtain ⟨other, atId, starts⟩ := woven.mem_outgoing member
        cases live.symm.trans atId
        exact starts

/-- Detaching one edge keeps what the lists of the other nodes say. -/
theorem Woven.detachEdge (woven : g.Woven listed) (id : EdgeId) :
    (g.detachEdge id).Woven listed := by
  have erased := g.edge?_detachEdge id
  have kept {other : EdgeId} {edge : Edge} (live : (g.detachEdge id).edge? other = some edge) :
      g.edge? other = some edge := by
    rw [erased] at live
    split at live
    · cases live
    · exact live
  constructor
  · rw [(g.nodes_detachEdge id).1, ← woven.adjacency_size]
    unfold Graph.detachEdge
    split
    · rfl
    · simp only [Array.size_modify]
  · intro other edge live
    rw [node?_detachEdge]
    exact woven.ends other edge (kept live)
  · intro a b edge edge' liveA liveB
    exact woven.single a b edge edge' (kept liveA) (kept liveB)
  · intro node member
    rw [woven.adjacentTo_detachEdge]
    exact (woven.incoming node member).erase erased
  · intro node member
    rw [woven.adjacentTo_detachEdge]
    exact (woven.outgoing node member).erase erased
  · intro node outside
    rw [woven.adjacentTo_detachEdge, woven.unlisted node outside]
    rfl
  · have counted := woven.liveEdges
    rw [length_edgeList] at counted ⊢
    unfold Graph.detachEdge
    cases live : g.edge? id with
    | none => exact counted
    | some edge =>
      simp only
      rw [countP_setIfInBounds_none (edge?_eq_some.mp live), counted]

/-- Detaching edge after edge takes exactly those edges away, and no node. -/
theorem Woven.detachEdges (woven : g.Woven listed) (ids : List EdgeId) :
    (ids.foldl Graph.detachEdge g).Woven listed ∧
      ((ids.foldl Graph.detachEdge g).nodes = g.nodes ∧
        (ids.foldl Graph.detachEdge g).liveNodes = g.liveNodes) ∧
      ∀ id, (ids.foldl Graph.detachEdge g).edge? id = if id ∈ ids then none else g.edge? id := by
  induction ids generalizing g with
  | nil => exact ⟨woven, ⟨rfl, rfl⟩, fun id => by simp⟩
  | cons first rest ih =>
    obtain ⟨kept, ⟨nodes, count⟩, edges⟩ := ih (woven.detachEdge first)
    obtain ⟨sameNodes, sameCount⟩ := g.nodes_detachEdge first
    refine ⟨kept, ⟨nodes.trans sameNodes, count.trans sameCount⟩, fun id => ?_⟩
    rw [List.foldl_cons, edges, edge?_detachEdge]
    by_cases later : id ∈ rest
    · simp [later]
    · by_cases here : id = first
      · simp [here]
      · simp [later, here]

theorem Integrity.live_iff_mem (whole : g.Integrity) {id : NodeId} {node : Node} :
    g.node? id = some node ↔ node ∈ g.nodeList ∧ node.id = id := by
  constructor
  · exact fun live => ⟨mem_nodeList.mpr ⟨id, live⟩, whole.own_id id node live⟩
  · rintro ⟨member, rfl⟩
    obtain ⟨slot, live⟩ := mem_nodeList.mp member
    rwa [whole.own_id slot node live]

/-- Nodes are listed in the order of their numbers. -/
theorem Integrity.ascending (whole : g.Integrity) :
    g.nodeList.Pairwise fun a b => a.id.index < b.id.index := by
  unfold nodeList
  rw [List.pairwise_filterMap, List.pairwise_iff_getElem]
  intro i j boundI boundJ before a atI b atJ
  have own {k : Nat} {node : Node} (bound : k < g.nodes.toList.length)
      (read : g.nodes.toList[k] = some node) : node.id = ⟨k⟩ := by
    refine whole.own_id ⟨k⟩ node (node?_eq_some.mpr ?_)
    rw [← Array.getElem?_toList, List.getElem?_eq_getElem bound, read]
  rw [own boundI atI, own boundJ atJ]
  exact before

end Flowgraph.Graph
