import Flowgraph.Graph.Export
import Flowgraph.Graph.Saved
import Flowgraph.Graph.Tick

namespace Flowgraph

@[simp] theorem EdgeId.index_inj {a b : EdgeId} : a.index = b.index ↔ a = b := by
  cases a; cases b; simp

@[simp] theorem NodeId.index_inj {a b : NodeId} : a.index = b.index ↔ a = b := by
  cases a; cases b; simp

namespace Graph

variable {g : Graph} {id other : NodeId} {old new : Node} {edge : Edge}

theorem node?_eq_some : g.node? id = some new ↔ g.nodes[id.index]? = some (some new) :=
  Option.join_eq_some_iff

theorem edge?_eq_some {id : EdgeId} :
    g.edge? id = some edge ↔ g.edges[id.index]? = some (some edge) :=
  Option.join_eq_some_iff

theorem index_lt_of_node? (live : g.node? id = some new) : id.index < g.nodes.size :=
  (Array.getElem?_eq_some_iff.mp (node?_eq_some.mp live)).1

theorem index_lt_of_edge? {id : EdgeId} (live : g.edge? id = some edge) :
    id.index < g.edges.size :=
  (Array.getElem?_eq_some_iff.mp (edge?_eq_some.mp live)).1

theorem mem_nodeList : new ∈ g.nodeList ↔ ∃ id, g.node? id = some new := by
  simp only [nodeList, List.mem_filterMap, node?_eq_some, Array.mem_toList_iff]
  constructor
  · rintro ⟨slot, member, rfl⟩
    obtain ⟨index, bound, read⟩ := Array.mem_iff_getElem.mp member
    exact ⟨⟨index⟩, by rw [Array.getElem?_eq_getElem bound, read]⟩
  · rintro ⟨id, read⟩
    exact ⟨some new, Array.mem_of_getElem? read, rfl⟩

/-- Emptying a full slot leaves one full slot less. -/
theorem countP_setIfInBounds_none {α : Type} {slots : Array (Option α)} {index : Nat} {a : α}
    (full : slots[index]? = some (some a)) :
    (slots.setIfInBounds index none).toList.countP Option.isSome =
      slots.toList.countP Option.isSome - 1 := by
  obtain ⟨bound, read⟩ := Array.getElem?_eq_some_iff.mp full
  have inList : index < slots.toList.length := by simpa using bound
  have atIndex : slots.toList[index] = some a := by simpa using read
  rw [Array.toList_setIfInBounds, List.countP_set inList, atIndex]
  rfl

theorem countP_push_some {α : Type} (slots : Array (Option α)) (a : α) :
    (slots.push (some a)).toList.countP Option.isSome = slots.toList.countP Option.isSome + 1 := by
  rw [Array.toList_push, List.countP_append]
  rfl

theorem join_getElem?_push {α : Type} (slots : Array (Option α)) (a : α) (index : Nat) :
    (slots.push (some a))[index]?.join =
      if index = slots.size then some a else slots[index]?.join := by
  rw [Array.getElem?_push]
  split <;> rfl

/-- Setting a slot that is there sets what is read from it, and nothing else; emptying one that is
not there does nothing. -/
theorem join_getElem?_setIfInBounds {α : Type} {slots : Array (Option α)} {index : Nat}
    {slot : Option α} (other : Nat) (inside : index < slots.size ∨ slot = none) :
    (slots.setIfInBounds index slot)[other]?.join =
      if other = index then slot else slots[other]?.join := by
  rw [Array.getElem?_setIfInBounds]
  by_cases same : other = index
  · subst same
    rw [if_pos rfl, if_pos rfl]
    rcases inside with bound | rfl
    · rw [if_pos bound, Option.join_some]
    · split <;> rfl
  · rw [if_neg (Ne.symm same), if_neg same]

theorem length_nodeList (g : Graph) :
    g.nodeList.length = g.nodes.toList.countP Option.isSome := by
  simp only [nodeList, List.length_filterMap_eq_countP]

theorem length_edgeList (g : Graph) :
    g.edgeList.length = g.edges.toList.countP Option.isSome := by
  have slots : g.edges.toList = g.edges.toList.zipIdx.map Prod.fst := by simp
  rw [slots, List.countP_map, edgeList, List.length_filterMap_eq_countP]
  simp only [Function.comp_def, Option.isSome_map]

/-- A reference resolves to the node of its slot, if it is of this graph. -/
theorem resolve_eq_ok {ref : NodeRef} :
    g.resolve ref = .ok new ↔ ref.graph = g.id ∧ g.node? ref.node = some new := by
  unfold resolve
  split
  · rename_i own
    cases g.node? ref.node with
    | none => simp
    | some node => simp [own]
  · rename_i foreign
    simp [foreign]

/-- Putting a node into its slot is seen under its number and nowhere else. -/
theorem node?_setNode (live : g.node? id = some old) :
    (g.setNode id new).node? other = if other = id then some new else g.node? other := by
  simp only [node?, setNode, join_getElem?_setIfInBounds _ (Or.inl (index_lt_of_node? live)),
    NodeId.index_inj]

theorem setActive_eq (live : g.node? id = some old) (active : Bool) :
    g.setActive id active = g.setNode id { old with active } := by
  simp only [setActive, live]

theorem setActive_none (dead : g.node? id = none) (active : Bool) :
    g.setActive id active = g := by
  simp only [setActive, dead]

/-- Saying whether a node is due changes nothing else of it, and no other node. -/
theorem node?_setActive (g : Graph) (id other : NodeId) (active : Bool) :
    (g.setActive id active).node? other =
      (g.node? other).map fun node => if other = id then { node with active } else node := by
  cases live : g.node? id with
  | none =>
    rw [setActive_none live]
    by_cases same : other = id
    · subst same; simp [live]
    · simp [same]
  | some node =>
    rw [setActive_eq live, node?_setNode live]
    by_cases same : other = id
    · subst same; simp [live]
    · simp [same]

theorem setActive_nodes (g : Graph) (id : NodeId) (active : Bool) :
    ∃ nodes, g.setActive id active = { g with nodes } := by
  unfold setActive
  split
  · exact ⟨_, rfl⟩
  · exact ⟨_, rfl⟩

theorem node?_mapNodes (g : Graph) (change : Node → Node) (id : NodeId) :
    ({ g with nodes := g.nodes.map (·.map change) } : Graph).node? id =
      (g.node? id).map change := by
  simp only [node?, Array.getElem?_map]
  cases g.nodes[id.index]? with
  | none => rfl
  | some slot => rfl

theorem nodeList_mapNodes (g : Graph) (change : Node → Node) :
    ({ g with nodes := g.nodes.map (·.map change) } : Graph).nodeList = g.nodeList.map change := by
  simp only [nodeList, Array.toList_map, List.filterMap_map, List.map_filterMap, Function.comp_def]

/-- The graph with every node passed through a function, and with the state of execution of a new
graph. -/
def strip (f : Node → Node) (g : Graph) : Graph :=
  { g with nodes := g.nodes.map (·.map f), phase := .idle, ticks := 0 }

theorem node?_strip (f : Node → Node) (g : Graph) (id : NodeId) :
    (g.strip f).node? id = (g.node? id).map f :=
  g.node?_mapNodes f id

/-- Graphs that agree after stripping have the same nodes, up to what is forgotten. -/
theorem map_node?_of_strip {f : Node → Node} {h : Graph} (same : g.strip f = h.strip f)
    (id : NodeId) : (g.node? id).map f = (h.node? id).map f := by
  rw [← node?_strip, ← node?_strip, same]

theorem strip_strip (f h : Node → Node) (g : Graph) :
    (g.strip f).strip h = g.strip (h ∘ f) := by
  simp only [strip, Array.map_map, Function.comp_def, Option.map_map]

/-- A change to a node is forgotten if it changes only what is forgotten. -/
theorem strip_setNode {f : Node → Node} (live : g.node? id = some old) (same : f new = f old) :
    (g.setNode id new).strip f = g.strip f := by
  have read := node?_eq_some.mp live
  have nodes : (g.nodes.setIfInBounds id.index (some new)).map (·.map f) =
      g.nodes.map (·.map f) := by
    apply Array.ext_getElem?
    intro i
    simp only [Array.getElem?_map, Array.getElem?_setIfInBounds]
    by_cases here : id.index = i
    · subst here
      rw [if_pos rfl, if_pos (index_lt_of_node? live), read]
      simp only [Option.map_some, same]
    · simp only [here, if_false]
  simp only [strip, setNode, nodes]

theorem strip_setActive {f : Node → Node} (blind : ∀ (node : Node) active,
    f { node with active } = f node) (g : Graph) (id : NodeId) (active : Bool) :
    (g.setActive id active).strip f = g.strip f := by
  cases live : g.node? id with
  | none => rw [setActive_none live]
  | some node => rw [setActive_eq live, strip_setNode live (blind node active)]

theorem strip_mapNodes {f : Node → Node} (change : Node → Node)
    (blind : ∀ node, f (change node) = f node) (g : Graph) :
    ({ g with nodes := g.nodes.map (·.map change) } : Graph).strip f = g.strip f := by
  simp only [strip, Array.map_map, Function.comp_def, Option.map_map, blind]

end Graph

end Flowgraph
