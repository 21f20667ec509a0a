import Flowgraph.Proofs.Twin.Renaming

namespace Flowgraph

namespace Graph

variable {g h : Graph} {r : Renaming}

/-- A graph and the same graph under other numbers, in the same order and at the same moment. -/
structure Twin (r : Renaming) (g h : Graph) : Prop where
  own : h.id = r.graph g.id
  foreign : ∀ other, r.graph other = h.id → other = g.id
  injective : ∀ a b, r.node a = r.node b → a = b
  ascending : ∀ a b, g.Live a → g.Live b → a.index < b.index →
    (r.node a).index < (r.node b).index
  node : ∀ id, h.node? (r.node id) = (g.node? id).map (Node.renumber r.node)
  onto : ∀ id, h.Live id → ∃ old, r.node old = id
  wires : h.wires = g.wires.map (Edge.renumber r.node)
  left : g.Integrity
  right : h.Integrity
  config : h.config = g.config
  phase : h.phase = g.phase
  ticks : h.ticks = g.ticks
  blind : ∀ id node, g.node? id = some node → node.template.Blind

namespace Twin

theorem live (twin : Twin r g h) {id : NodeId} {node : Node} (live : g.node? id = some node) :
    h.node? (r.node id) = some (node.renumber r.node) := by
  rw [twin.node, live, Option.map_some]

theorem dead (twin : Twin r g h) {id : NodeId} (dead : g.node? id = none) :
    h.node? (r.node id) = none := by
  rw [twin.node, dead, Option.map_none]

theorem nodeList (twin : Twin r g h) :
    h.nodeList = g.nodeList.map (Node.renumber r.node) := by
  refine eq_of_ascending (fun node => node.id.index) twin.right.ascending ?_ fun node => ?_
  · refine List.pairwise_map.mpr (twin.left.ascending.imp_of_mem fun memberA memberB before => ?_)
    exact twin.ascending _ _ ⟨_, twin.left.live_iff_mem.mpr ⟨memberA, rfl⟩⟩
      ⟨_, twin.left.live_iff_mem.mpr ⟨memberB, rfl⟩⟩ before
  · rw [mem_nodeList, List.mem_map]
    constructor
    · rintro ⟨id, atId⟩
      obtain ⟨old, rfl⟩ := twin.onto id ⟨node, atId⟩
      rw [twin.node] at atId
      obtain ⟨source, atOld, rfl⟩ := Option.map_eq_some_iff.mp atId
      exact ⟨source, mem_nodeList.mpr ⟨old, atOld⟩, rfl⟩
    · rintro ⟨source, member, rfl⟩
      obtain ⟨old, atOld⟩ := mem_nodeList.mp member
      exact ⟨r.node old, twin.live atOld⟩

theorem liveNodes (twin : Twin r g h) : h.liveNodes = g.liveNodes := by
  rw [twin.right.liveNodes, twin.left.liveNodes, twin.nodeList, List.length_map]

theorem isIdle (twin : Twin r g h) : h.isIdle = g.isIdle := by
  unfold Graph.isIdle
  rw [twin.phase]

/-- A reference resolves to the same node in twins, or fails in the same way. -/
theorem resolve (twin : Twin r g h) (ref : NodeRef) :
    h.resolve (r.ref ref) = ((g.resolve ref).map (Node.renumber r.node)).mapError r.error := by
  by_cases own : ref.graph = g.id
  · have ownTwin : (r.ref ref).graph = h.id := by rw [twin.own, ← own]; rfl
    unfold Graph.resolve
    rw [if_pos own, if_pos ownTwin, show (r.ref ref).node = r.node ref.node from rfl, twin.node]
    cases g.node? ref.node <;> rfl
  · have foreign : (r.ref ref).graph ≠ h.id := fun same => own (twin.foreign _ same)
    unfold Graph.resolve
    rw [if_neg own, if_neg foreign, twin.own]
    rfl

/-- Twins have the same edges at each node in the same order. -/
theorem incoming (twin : Twin r g h) (id : NodeId) :
    h.incoming (r.node id) = (g.incoming id).map (Edge.renumber r.node) := by
  rw [twin.right.incoming_eq, twin.left.incoming_eq, twin.wires, List.filter_map]
  congr 1
  refine List.filter_congr fun edge _ => decide_eq_decide.mpr ?_
  exact ⟨twin.injective _ _, congrArg r.node⟩

theorem outgoing (twin : Twin r g h) (id : NodeId) :
    h.outgoing (r.node id) = (g.outgoing id).map (Edge.renumber r.node) := by
  rw [twin.right.outgoing_eq, twin.left.outgoing_eq, twin.wires, List.filter_map]
  congr 1
  refine List.filter_congr fun edge _ => decide_eq_decide.mpr ?_
  exact ⟨twin.injective _ _, congrArg r.node⟩

theorem wired? (twin : Twin r g h) (id : NodeId) (input : Nat) :
    h.wired? (r.node id) input = g.wired? id input := by
  unfold Graph.wired?
  rw [twin.incoming, ← List.map_reverse, List.filter_map, List.findSome?_map]
  congr 1
  funext edge
  have source : (Edge.renumber r.node edge).source = r.node edge.source := rfl
  simp only [Function.comp_apply, source, twin.node]
  cases g.node? edge.source <;> rfl

/-- A node reads the same inputs in twins. -/
theorem resolveInputs (twin : Twin r g h) (id : NodeId) :
    h.resolveInputs (r.node id) = g.resolveInputs id := by
  unfold Graph.resolveInputs
  simp only [twin.node, twin.wired?]
  cases g.node? id <;> rfl

/-- A run of a node wakes the same targets in the same order in twins. -/
theorem activated (twin : Twin r g h) (id : NodeId) (activations : List Bool) :
    h.activated (r.node id) activations = (g.activated id activations).map r.node := by
  unfold Graph.activated
  rw [twin.outgoing, List.filter_map, List.map_map, List.map_map]
  rfl

theorem awakens (twin : Twin r g h) (id : NodeId) : h.awakens (r.node id) = g.awakens id := by
  unfold Graph.awakens
  rw [twin.node]
  cases g.node? id <;> rfl

/-- What changes only nodes, and in both graphs in the same way, keeps twins. -/
theorem change {g' h' : Graph} (twin : Twin r g h) (left : g'.skeleton = g.skeleton)
    (right : h'.skeleton = h.skeleton)
    (node : ∀ id, h'.node? (r.node id) = (g'.node? id).map (Node.renumber r.node))
    (phase : h'.phase = g'.phase) (ticks : h'.ticks = g'.ticks) : Twin r g' h' := by
  have liveLeft := live_of_skeleton left
  have liveRight := live_of_skeleton right
  have idLeft : g'.id = g.id := (congrArg Graph.id left :)
  have idRight : h'.id = h.id := (congrArg Graph.id right :)
  have edgesLeft : g'.edges = g.edges := (congrArg Graph.edges left :)
  have edgesRight : h'.edges = h.edges := (congrArg Graph.edges right :)
  have configLeft : g'.config = g.config := (congrArg Graph.config left :)
  have configRight : h'.config = h.config := (congrArg Graph.config right :)
  refine ⟨?_, ?_, twin.injective, ?_, node, ?_, ?_, twin.left.of_skeleton left.symm,
    twin.right.of_skeleton right.symm, ?_, phase, ticks, ?_⟩
  · rw [idLeft, idRight]
    exact twin.own
  · rw [idLeft, idRight]
    exact twin.foreign
  · rw [← liveLeft]
    exact twin.ascending
  · rw [← liveRight]
    exact twin.onto
  · unfold Graph.wires
    rw [edgesLeft, edgesRight]
    exact twin.wires
  · rw [configLeft, configRight, twin.config]
  · intro id node atId
    obtain ⟨old, atOld, _, template⟩ := node?_of_skeleton left atId
    rw [← template]
    exact twin.blind id old atOld

end Twin

end Graph

end Flowgraph
