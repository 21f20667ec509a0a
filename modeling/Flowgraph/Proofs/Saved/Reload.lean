import Flowgraph.Proofs.Graph.Origin
import Flowgraph.Proofs.Saved.Loading

namespace Flowgraph

/-- A node as it is saved. -/
def Node.saved (node : Node) : SavedNode := ⟨node.template.name, node.internals⟩

theorem Edge.saved_injective : Function.Injective Edge.saved := by
  rintro ⟨⟨s⟩, o, ⟨t⟩, i⟩ ⟨⟨s'⟩, o', ⟨t'⟩, i'⟩ same
  cases same
  rfl

namespace Graph

variable {g h : Graph}

/-- Of a template that the registry holds under its name, and with settings that come back. -/
structure Kept (registry : Registry) (node : Node) : Prop where
  found : registry.get? node.template.name = some node.template
  settled : node.Settled
  fits : node.template.Restorable

theorem Integrity.apart (whole : g.Integrity) :
    g.wires.Pairwise fun a b => a.target = b.target → a.input ≠ b.input := by
  unfold wires
  rw [List.pairwise_filterMap, List.pairwise_iff_getElem]
  intro i j boundI boundJ before a atI b atJ sameTarget sameInput
  have live {k : Nat} {edge : Edge} (bound : k < g.edges.toList.length)
      (read : g.edges.toList[k] = some edge) : g.edge? ⟨k⟩ = some edge := by
    refine edge?_eq_some.mpr ?_
    rw [← Array.getElem?_toList, List.getElem?_eq_getElem bound, read]
  have same := whole.single ⟨i⟩ ⟨j⟩ a b (live boundI atI) (live boundJ atJ) sameTarget sameInput
  exact Nat.ne_of_lt before (congrArg EdgeId.index same)

/-- A saved edge is an edge of the graph with the positions of its ends, which have its ports. -/
theorem Integrity.ends_save (whole : g.Integrity) {edge : SavedEdge}
    (member : edge ∈ g.save.edges) :
    ∃ (wire : Edge) (source target : Node), edge = (wire.renumber g.rank).saved ∧
      g.node? wire.source = some source ∧ g.node? wire.target = some target ∧
      edge.output < source.template.outputs.length ∧
      edge.input < target.template.inputs.length := by
  rw [whole.save_edges, List.map_map] at member
  obtain ⟨wire, there, rfl⟩ := List.mem_map.mp member
  obtain ⟨id, live⟩ := mem_wires.mp there
  obtain ⟨source, target, atSource, atTarget, ports⟩ := whole.ends id wire live
  exact ⟨wire, source, target, rfl, atSource, atTarget, ports⟩

theorem Integrity.saved_inside (whole : g.Integrity) {edge : SavedEdge}
    (member : edge ∈ g.save.edges) :
    edge.source < g.save.nodes.length ∧ edge.target < g.save.nodes.length := by
  obtain ⟨wire, source, target, rfl, atSource, atTarget, _⟩ := whole.ends_save member
  have count : g.save.nodes.length = g.nodeList.length := List.length_map _
  rw [count]
  exact ⟨whole.rank_lt ⟨source, atSource⟩, whole.rank_lt ⟨target, atTarget⟩⟩

theorem Integrity.template?_save (whole : g.Integrity)
    (kept : ∀ node ∈ g.nodeList, Kept g.registry node) {id : NodeId} {node : Node}
    (live : g.node? id = some node) :
    g.save.template? g.registry (g.rank id).index = some node.template := by
  obtain ⟨member, rfl⟩ := whole.live_iff_mem.mp live
  obtain ⟨position, read⟩ := List.getElem?_of_mem member
  have atPosition : g.save.nodes[position]? = some node.saved := by
    simp only [save, List.getElem?_map, read, Option.map_some, Node.saved]
  rw [whole.rank_eq read, SavedGraph.template?, atPosition]
  exact (kept node member).found

/-- What is saved of a graph is well formed, if its templates are still registered. -/
theorem Integrity.wellFormed_save (whole : g.Integrity)
    (kept : ∀ node ∈ g.nodeList, Kept g.registry node) : g.save.WellFormed g.registry := by
  refine ⟨fun edge => whole.saved_inside, ?_, ?_, ?_, ?_⟩
  · intro saved member
    obtain ⟨node, there, rfl⟩ := List.mem_map.mp member
    exact ⟨node.template, (kept node there).found⟩
  · intro edge member t found
    obtain ⟨wire, source, _, rfl, atSource, _, output, _⟩ := whole.ends_save member
    cases found.symm.trans (whole.template?_save kept atSource)
    exact output
  · intro edge member t found
    obtain ⟨wire, _, target, rfl, _, atTarget, _, input⟩ := whole.ends_save member
    cases found.symm.trans (whole.template?_save kept atTarget)
    exact input
  · rw [whole.save_edges, List.map_map]
    refine List.pairwise_map.mpr (whole.apart.imp fun apart sameTarget => ?_)
    exact apart (whole.rank_injective (NodeId.index_inj.mp sameTarget))

/-- Where the nodes of another graph were copied in order, each is under its position, and nothing
else is there. -/
theorem Integrity.node?_rank (whole : g.Integrity) (copies : h.Integrity)
    (nodes : h.nodeList = g.nodeList.map fun node => copy (g.rank node.id) node) (id : NodeId) :
    h.node? (g.rank id) = (g.node? id).map (copy (g.rank id)) := by
  cases live : g.node? id with
  | some node =>
    obtain ⟨member, rfl⟩ := whole.live_iff_mem.mp live
    refine copies.live_iff_mem.mpr ⟨?_, rfl⟩
    rw [nodes]
    exact List.mem_map_of_mem member
  | none =>
    cases atRank : h.node? (g.rank id) with
    | none => rfl
    | some node =>
      obtain ⟨member, own⟩ := copies.live_iff_mem.mp atRank
      rw [nodes] at member
      obtain ⟨old, there, rfl⟩ := List.mem_map.mp member
      have same : old.id = id := whole.rank_injective own
      cases live.symm.trans (whole.live_iff_mem.mpr ⟨there, same⟩)

/-- A graph that holds the nodes and edges of another under their positions. -/
structure Compacts (g h : Graph) : Prop where
  whole : h.Integrity
  nodes : h.nodeList = g.nodeList.map fun node => copy (g.rank node.id) node
  wires : h.wires = g.wires.map (Edge.renumber g.rank)

/-- A graph that was loaded from what was saved of another. -/
theorem Loading.compacts {refs : List NodeRef} {registry : Registry}
    (loading : Loading registry g.save refs g.save.edges h) (whole : g.Integrity)
    (kept : ∀ node ∈ g.nodeList, Kept registry node) : g.Compacts h := by
  have count : g.save.nodes.length = g.nodeList.length := List.length_map _
  refine ⟨loading.whole, ?_, ?_⟩
  · apply List.ext_getElem?
    intro position
    rw [List.getElem?_map]
    cases read : g.nodeList[position]? with
    | none =>
      have beyond := List.getElem?_eq_none_iff.mp read
      rw [← count, ← loading.length] at beyond
      rw [List.getElem?_eq_none_iff.mpr beyond]
      rfl
    | some node =>
      have atPosition : g.save.nodes[position]? = some node.saved := by
        simp only [save, List.getElem?_map, read, Option.map_some, Node.saved]
      obtain ⟨t, found, copied⟩ := loading.nodes position node.saved atPosition
      have keep := kept node (List.mem_of_getElem? read)
      cases found.symm.trans keep.found
      have settings : (node.saved.build node.template).internals = node.internals :=
        restoreSettings_of_settled keep.settled keep.fits
      rw [copied, Option.map_some, whole.rank_eq read, copy, copy, settings]
      rfl
  · have edges := loading.wires
    rw [whole.save_edges] at edges
    exact List.map_injective_iff.mpr Edge.saved_injective edges

/-- What is saved of a graph can be loaded, and gives the graph under positions. -/
theorem Integrity.load_save (whole : g.Integrity)
    (kept : ∀ node ∈ g.nodeList, Kept g.registry node) (id : GraphId) (config : GraphConfig) :
    (load id g.registry config g.save).result = .ok () ∧
      g.Compacts (load id g.registry config g.save).graph := by
  have paired : ∀ saved ∈ g.save.nodes, ∀ t, g.registry.get? saved.template = some t →
      t.defaults.length = t.internals.length := by
    intro saved member t found
    obtain ⟨node, there, rfl⟩ := List.mem_map.mp member
    cases found.symm.trans (kept node there).found
    exact (kept node there).fits.length
  have first := error?_load id config g.save paired
  rw [SavedGraph.violations_eq_nil.mpr (whole.wellFormed_save kept)] at first
  obtain ⟨_, answer⟩ := error?_eq_none.mp first
  obtain ⟨refs, loading⟩ := loading_load answer
  exact ⟨answer, loading.compacts whole kept⟩

end Graph

end Flowgraph
