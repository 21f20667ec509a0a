import Flowgraph.Proofs.Saved.Reload

namespace Flowgraph

namespace Graph

variable {g h : Graph}

/-- Every node of a graph over restorable templates can be found and restored again. -/
theorem Reachable.kept {declarations : List Template.Declaration} (reach : g.Reachable)
    (declared : g.registry = Registry.declare {} declarations)
    (fits : ∀ t ∈ g.registry.templates, t.Restorable) :
    ∀ node ∈ g.nodeList, Kept g.registry node := by
  intro node member
  obtain ⟨id, live⟩ := mem_nodeList.mp member
  obtain ⟨⟨name, found⟩, settled⟩ := reach.known live
  have own : node.template.name = name := by
    rw [declared] at found
    exact Registry.name_of_get? found
  exact ⟨own ▸ found, settled, fits _ (reach.registered live)⟩

theorem Compacts.live_iff (compact : g.Compacts h) (whole : g.Integrity) {id : NodeId} :
    h.Live id ↔ ∃ old, g.Live old ∧ g.rank old = id := by
  constructor
  · rintro ⟨node, live⟩
    obtain ⟨member, own⟩ := compact.whole.live_iff_mem.mp live
    rw [compact.nodes] at member
    obtain ⟨old, there, rfl⟩ := List.mem_map.mp member
    exact ⟨old.id, ⟨old, whole.live_iff_mem.mpr ⟨there, rfl⟩⟩, own⟩
  · rintro ⟨old, ⟨node, live⟩, rfl⟩
    refine ⟨copy (g.rank old) node, ?_⟩
    rw [whole.node?_rank compact.whole compact.nodes, live, Option.map_some]

/-- In a graph without gaps the numbers are the positions. -/
theorem Compacts.rank_rank (compact : g.Compacts h) (whole : g.Integrity) {id : NodeId}
    (live : g.Live id) : h.rank (g.rank id) = g.rank id := by
  obtain ⟨p, position, _⟩ := whole.position?_of_live live
  obtain ⟨node, atP, rfl⟩ := whole.position?_eq_some.mp position
  have copied : h.nodeList[p]? = some (copy (g.rank node.id) node) := by
    rw [compact.nodes, List.getElem?_map, atP]
    rfl
  rw [whole.rank_eq atP] at copied ⊢
  exact compact.whole.rank_eq copied

/-- A graph and its compacted copy are saved as the same form. -/
theorem Compacts.save_eq (compact : g.Compacts h) (whole : g.Integrity) : h.save = g.save := by
  have nodes : h.save.nodes = g.save.nodes := by
    simp only [save, compact.nodes, List.map_map]
    rfl
  have edges : h.save.edges = g.save.edges := by
    rw [compact.whole.save_edges, whole.save_edges, compact.wires, List.map_map, List.map_map,
      List.map_map]
    refine List.map_congr_left fun edge member => ?_
    obtain ⟨id, live⟩ := mem_wires.mp member
    obtain ⟨source, target, atSource, atTarget, _⟩ := whole.ends id edge live
    simp only [Function.comp_apply, Edge.renumber, compact.rank_rank whole ⟨source, atSource⟩,
      compact.rank_rank whole ⟨target, atTarget⟩]
  cases saved : h.save with
  | mk nodes' edges' =>
    rw [saved] at nodes edges
    rw [show nodes' = g.save.nodes from nodes, show edges' = g.save.edges from edges]

/-- Saving drops nothing, the saved form loads under every configuration, and the loaded graph has
the same nodes and edges in the same order, so that it is saved as the same form again. -/
theorem save_load {declarations : List Template.Declaration} (reach : g.Reachable)
    (declared : g.registry = Registry.declare {} declarations)
    (fits : ∀ t ∈ g.registry.templates, t.Restorable) (id : GraphId) (config : GraphConfig) :
    g.save.nodes.length = g.liveNodes ∧ g.save.edges.length = g.liveEdges ∧
      (∀ edge ∈ g.save.edges,
        edge.source < g.save.nodes.length ∧ edge.target < g.save.nodes.length) ∧
      (load id g.registry config g.save).result = .ok () ∧
      ∃ (loaded : Graph) (rank : NodeId → NodeId),
        (load id g.registry config g.save).graph = loaded ∧
        (∀ a b, g.Live a → g.Live b → a.index < b.index → (rank a).index < (rank b).index) ∧
        (∀ b, loaded.Live b ↔ ∃ a, g.Live a ∧ rank a = b) ∧
        loaded.nodeList.map (fun node => (node.template, node.internals)) =
          g.nodeList.map (fun node => (node.template, node.internals)) ∧
        loaded.wires = g.wires.map (Edge.renumber rank) ∧ loaded.save = g.save := by
  have whole := reach.integrity
  obtain ⟨result, compact⟩ := whole.load_save (reach.kept declared fits) id config
  have nodes : g.save.nodes.length = g.liveNodes := by
    rw [whole.liveNodes]
    exact List.length_map _
  have edges : g.save.edges.length = g.liveEdges := by
    rw [whole.save_edges, List.length_map, List.length_map, ← edgeList_map_snd, List.length_map,
      whole.liveEdges]
  refine ⟨nodes, edges, fun edge => whole.saved_inside, result, _, g.rank, rfl, ?_, ?_, ?_,
    compact.wires, compact.save_eq whole⟩
  · exact fun a b liveA liveB => whole.rank_strictMono liveA liveB
  · exact fun b => compact.live_iff whole
  · rw [compact.nodes, List.map_map]
    rfl

/-- A source that emits its setting, a node that passes its input on, and one that pairs two. -/
def flow : List Template.Declaration :=
  [.constant "flow" "Seed" [⟨"on", .bool, none⟩] [.bool true] false,
    .plain "flow" "Relay" [⟨"in", .any, none⟩] [⟨"out", .any, none⟩]
      (fun inputs _ => { outcome := .results (inputs.map (⟨·, true⟩)) }) false,
    .plain "flow" "Join" [⟨"a", .any, none⟩, ⟨"b", .any, none⟩] [⟨"both", .any, none⟩]
      (fun inputs _ => { outcome := .results [⟨.array inputs, true⟩] }) false]

/-- What an editor did: the first node and its edge are removed again, a wire is drawn anew, and the
seed is set. -/
def rewiring : List Call :=
  let ref (slot : Nat) : NodeRef := ⟨⟨0⟩, ⟨slot⟩⟩
  [.addNode "Relay", .addNode "Seed", .addNode "Relay", .addNode "Join",
    .addEdge (ref 0) 0 (ref 2) 0, .addEdge (ref 1) 0 (ref 3) 1, .removeNode (ref 0),
    .removeEdge ⟨1⟩, .addEdge (ref 1) 0 (ref 2) 0, .addEdge (ref 2) 0 (ref 3) 1,
    .addEdge (ref 1) 0 (ref 3) 0, .setInternal (ref 1) 0 (.bool false)]

def rewired : Graph := (empty ⟨0⟩ (Registry.declare {} flow) {}).afterAll rewiring

theorem restorable_flow {t : Template} (member : t ∈ (Registry.declare {} flow).templates) :
    t.Restorable := by
  rcases Registry.mem_templates_declare flow member with old | ⟨d, declared, rfl⟩
  · cases old
  · simp only [flow, List.mem_cons, List.not_mem_nil, or_false] at declared
    rcases declared with rfl | rfl | rfl
    · refine ⟨rfl, fun index port v atPort default => ?_⟩
      cases index with
      | zero =>
        cases atPort
        cases default
        exact Or.inl rfl
      | succ => cases atPort
    · exact ⟨rfl, fun index port v atPort => by cases atPort⟩
    · exact ⟨rfl, fun index port v atPort => by cases atPort⟩

theorem registry_rewired : rewired.registry = Registry.declare {} flow := rfl

theorem save_load_rewired :
    rewired.Reachable ∧ rewired.nodes[0]? = some none ∧
      (∀ t ∈ rewired.registry.templates, t.Restorable) ∧
      rewired.save.edges = [⟨0, 0, 1, 0⟩, ⟨1, 0, 2, 1⟩, ⟨0, 0, 2, 0⟩] ∧
      ∃ loaded, (load ⟨1⟩ rewired.registry { capFactor := 3 } rewired.save).graph = loaded ∧
        loaded.save = rewired.save := by
  have reach : rewired.Reachable := (Reachable.empty _ _ _).afterAll _
  have fits : ∀ t ∈ rewired.registry.templates, t.Restorable := fun t => restorable_flow
  obtain ⟨_, _, _, _, loaded, _, graph, _, _, _, _, again⟩ :=
    save_load reach registry_rewired fits ⟨1⟩ { capFactor := 3 }
  exact ⟨reach, by rfl, fits, by rfl, loaded, graph, again⟩

end Graph

end Flowgraph
