import Flowgraph.Proofs.Graph.Origin
import Flowgraph.Proofs.Twin.Relation

namespace Flowgraph.Graph

variable {g h : Graph} {r : Renaming}

/-- Replies that say the same and leave twins. -/
structure Agree {α : Type} (r : Renaming) (a b : Reply α) : Prop where
  result : b.result = a.result.mapError r.error
  notices : b.notices = a.notices
  graph : Twin r a.graph b.graph

namespace Twin

theorem refuse {α : Type} (twin : Twin r g h) (error : GraphError) :
    Agree r (g.refuse error : Reply α) (h.refuse (r.error error)) :=
  ⟨rfl, rfl, twin⟩

theorem whenIdle {α : Type} {a b : Reply α} (twin : Twin r g h) (agree : Agree r a b) :
    Agree r (g.whenIdle a) (h.whenIdle b) := by
  unfold Graph.whenIdle
  rw [twin.isIdle]
  split
  · exact agree
  · exact ⟨rfl, rfl, twin⟩

/-- Twins stay twins if a node is changed in the same way in both. -/
theorem setNode (twin : Twin r g h) {id : NodeId} {old new : Node} (live : g.node? id = some old)
    (same : new.bare = old.bare) :
    Twin r (g.setNode id new) (h.setNode (r.node id) (new.renumber r.node)) := by
  have renumbered : (new.renumber r.node).bare = (old.renumber r.node).bare :=
    congrArg (Node.renumber r.node) same
  refine twin.change (strip_setNode live same) (strip_setNode (twin.live live) renumbered)
    (fun other => ?_) twin.phase twin.ticks
  rw [node?_setNode live, node?_setNode (twin.live live)]
  by_cases here : other = id
  · rw [if_pos here, if_pos (congrArg r.node here)]
    rfl
  · rw [if_neg here, if_neg fun same => here (twin.injective _ _ same), twin.node]

theorem mapNodes (twin : Twin r g h) {change change' : Node → Node}
    (bare : ∀ node, (change node).bare = node.bare)
    (bare' : ∀ node, (change' node).bare = node.bare)
    (same : ∀ id node, g.node? id = some node →
      change' (node.renumber r.node) = (change node).renumber r.node) :
    Twin r { g with nodes := g.nodes.map (·.map change) }
      { h with nodes := h.nodes.map (·.map change') } := by
  refine twin.change (strip_mapNodes change bare g) (strip_mapNodes change' bare' h)
    (fun id => ?_) twin.phase twin.ticks
  rw [node?_mapNodes, node?_mapNodes, twin.node]
  cases live : g.node? id with
  | none => rfl
  | some node => exact congrArg some (same id node live)

theorem changeWhere (twin : Twin r g h) (holds : Node → Bool) (change : Node → Node)
    (bare : ∀ node, (change node).bare = node.bare)
    (sameHolds : ∀ node, holds (node.renumber r.node) = holds node)
    (sameChange : ∀ node, change (node.renumber r.node) = (change node).renumber r.node) :
    (h.changeWhere holds change).1 = (g.changeWhere holds change).1 ∧
      Twin r (g.changeWhere holds change).2 (h.changeWhere holds change).2 := by
  refine ⟨?_, twin.mapNodes (fun node => ?_) (fun node => ?_) fun id node _ => ?_⟩
  · unfold Graph.changeWhere
    simp only [twin.nodeList, List.countP_map, Function.comp_def, sameHolds]
  · split
    · exact bare node
    · rfl
  · split
    · exact bare node
    · rfl
  · rw [sameHolds, sameChange]
    split <;> rfl

theorem activate (twin : Twin r g h) (ref : NodeRef) :
    Agree r (g.activate ref) (h.activate (r.ref ref)) := by
  refine twin.whenIdle ?_
  rw [twin.resolve]
  cases found : g.resolve ref with
  | error e => exact twin.refuse e
  | ok node =>
    have template : (node.renumber r.node).template = node.template := rfl
    simp only [Except.map, Except.mapError, template]
    split
    · exact twin.refuse _
    · exact ⟨rfl, rfl, twin.setNode (resolve_eq_ok.mp found).2 rfl⟩

theorem setInternal (twin : Twin r g h) (ref : NodeRef) (index : Nat) (v : Value) :
    Agree r (g.setInternal ref index v) (h.setInternal (r.ref ref) index v) := by
  refine twin.whenIdle ?_
  rw [twin.resolve]
  cases found : g.resolve ref with
  | error e => exact twin.refuse e
  | ok node =>
    have template : (node.renumber r.node).template = node.template := rfl
    simp only [Except.map, Except.mapError, template, port]
    cases node.template.internals[index]? with
    | none => exact twin.refuse _
    | some port =>
      simp only
      cases port.type.coerce? v with
      | none => exact twin.refuse _
      | some stored =>
        simp only [Node.renumber_withInternal?]
        cases set : node.withInternal? index stored with
        | none => exact twin.refuse _
        | some changed =>
          exact ⟨rfl, rfl, twin.setNode (resolve_eq_ok.mp found).2 (Node.bare_withInternal set)⟩

theorem index_lt_iff (twin : Twin r g h) {a b : NodeId} (liveA : g.Live a) (liveB : g.Live b) :
    (r.node a).index < (r.node b).index ↔ a.index < b.index := by
  constructor
  · intro before
    rcases Nat.lt_trichotomy a.index b.index with less | same | after
    · exact less
    · rw [NodeId.index_inj.mp same] at before
      exact absurd before (Nat.lt_irrefl _)
    · have reversed := twin.ascending b a liveB liveA after
      omega
  · exact twin.ascending a b liveA liveB

/-- The nodes of twins are tuned in the same way, and as many of them. -/
theorem tuneWhere (twin : Twin r g h) {holds holds' : Node → Bool}
    (same : ∀ id node, g.node? id = some node → holds' (node.renumber r.node) = holds node)
    (values : Dictionary Value) :
    Agree r (g.tuneWhere holds values) (h.tuneWhere holds' values) := by
  have bare (holds : Node → Bool) (node : Node) :
      ((if holds node then node.tune values else .untouched).node node).bare = node.bare := by
    split
    · exact bare_tuning node values
    · rfl
  have tuning {node : Node} (member : node ∈ g.nodeList) :
      (if holds' (node.renumber r.node) then (node.renumber r.node).tune values else .untouched) =
        (if holds node then node.tune values else .untouched).renumber r.node := by
    obtain ⟨id, live⟩ := mem_nodeList.mp member
    rw [same id node live, Node.renumber_tune]
    split <;> rfl
  refine ⟨congrArg Except.ok ?_, ?_, ?_⟩
  · rw [twin.nodeList, List.countP_map]
    refine List.countP_congr fun node member => ?_
    simp only [Function.comp_apply, tuning member, (Tuning.renumber_facts _ _).1]
  · simp only [Graph.tuneWhere, accept, twin.nodeList, List.filterMap_map]
    refine List.filterMap_congr fun node member => ?_
    rw [Function.comp_apply, tuning member, (Tuning.renumber_facts _ _).2.1]
  · refine twin.mapNodes (bare holds) (bare holds') fun id node live => ?_
    simp only [tuning (mem_nodeList.mpr ⟨id, live⟩), Tuning.renumber_node]

/-- The first node that lacks a place is the same in twins, since their nodes are in the same
order. -/
theorem firstMissing? (twin : Twin r g h) (values : Dictionary Value) :
    h.firstMissing? values =
      (g.firstMissing? values).map fun missing => (r.node missing.1, missing.2) := by
  unfold Graph.firstMissing?
  rw [twin.nodeList, List.findSome?_map, List.map_findSome?]
  congr 1
  funext node
  simp only [Function.comp_apply, Node.renumber_tune, (Tuning.renumber_facts _ _).2.2,
    Option.map_map]
  rfl

theorem applyExports (twin : Twin r g h) (values : Dictionary Value) :
    Agree r (g.applyExports values) (h.applyExports values) := by
  refine twin.whenIdle ?_
  rw [twin.firstMissing?]
  cases missing : g.firstMissing? values with
  | none =>
    apply twin.tuneWhere
    exact fun _ _ _ => rfl
  | some place =>
    obtain ⟨id, index⟩ := place
    have liveId : g.Live id := by
      obtain ⟨node, member, found⟩ := List.exists_of_findSome?_eq_some missing
      obtain ⟨_, _, same⟩ := Option.map_eq_some_iff.mp found
      cases same
      exact ⟨node, twin.left.live_iff_mem.mpr ⟨member, rfl⟩⟩
    have before : Agree r (g.tuneWhere (fun node => node.id.index < id.index) values)
        (h.tuneWhere (fun node => node.id.index < (r.node id).index) values) := by
      refine twin.tuneWhere (fun other node live => decide_eq_decide.mpr ?_) values
      have own := twin.left.own_id other node live
      exact twin.index_lt_iff ⟨node, own ▸ live⟩ liveId
    exact ⟨rfl, before.notices, before.graph⟩

/-- Twins are told of the same and arm as many nodes. -/
theorem notifyWhere (twin : Twin r g h) (holds : Template → Bool) (payload : List Value) :
    Agree r (g.notifyWhere holds payload) (h.notifyWhere holds payload) := by
  refine twin.whenIdle ?_
  obtain ⟨count, changed⟩ := twin.changeWhere
    (fun node => node.template.isEvent && holds node.template) (fun node => node.arm payload)
    (fun _ => rfl) (fun _ => rfl) fun _ => rfl
  exact ⟨congrArg Except.ok count, rfl, changed⟩

theorem activateSources (twin : Twin r g h) :
    Agree r g.activateSources h.activateSources := by
  refine twin.whenIdle ?_
  obtain ⟨count, changed⟩ := twin.changeWhere isSource (fun node => { node with active := true })
    (fun _ => rfl) (fun _ => rfl) fun _ => rfl
  exact ⟨congrArg Except.ok count, rfl, changed⟩

end Twin

end Flowgraph.Graph
