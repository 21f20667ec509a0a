import Flowgraph.Proofs.Graph.Edits

namespace Flowgraph.Graph

variable {g : Graph}

/-- A reply that refuses a call and leaves the graph. -/
def Refused {α : Type} (g : Graph) (reply : Reply α) : Prop :=
  (∃ e, reply.result = .error e) ∧ reply.graph = g

theorem whenIdle_of_idle {α : Type} {call : Reply α} (idle : g.isIdle = true) :
    g.whenIdle call = call :=
  if_pos idle

theorem whenIdle_of_busy {α : Type} {call : Reply α} (busy : g.isIdle = false) :
    g.whenIdle call =
      { result := .error .propagating, graph := g, notices := [.editWhilePropagating] } :=
  if_neg (by simp [busy])

theorem refused_of_busy {α : Type} {call : Reply α} (busy : g.isIdle = false) :
    g.Refused (g.whenIdle call) := by
  rw [whenIdle_of_busy busy]
  exact ⟨⟨_, rfl⟩, rfl⟩

theorem eq_ref_of_own {ref : NodeRef} (own : ref.graph = g.id) : ref = g.ref ref.node := by
  rw [Graph.ref, ← own]

/-- A node is refused, or a new one of the named template stands in the next slot. -/
theorem addNode_cases (g : Graph) (name : String) :
    g.Refused (g.addNode name) ∨ ∃ t, g.registry.get? name = some t ∧
      (g.addNode name).result = .ok (g.ref ⟨g.nodes.size⟩) ∧
      (g.addNode name).graph = g.withNode t := by
  unfold addNode
  cases idle : g.isIdle with
  | false => exact Or.inl (refused_of_busy idle)
  | true =>
    rw [whenIdle_of_idle idle]
    cases g.registry.get? name with
    | none => exact Or.inl ⟨⟨_, rfl⟩, rfl⟩
    | some t => exact Or.inr ⟨t, rfl, rfl, rfl⟩

/-- An edge is refused, or it stands in the next slot between nodes of this graph. -/
theorem addEdge_cases (g : Graph) (source : NodeRef) (output : Nat) (target : NodeRef)
    (input : Nat) :
    g.Refused (g.addEdge source output target input) ∨
      source = g.ref source.node ∧ target = g.ref target.node ∧
        (g.addEdge source output target input).result = .ok ⟨g.edges.size⟩ ∧
        (g.addEdge source output target input).graph =
          g.withEdge ⟨source.node, output, target.node, input⟩ := by
  unfold addEdge
  cases idle : g.isIdle with
  | false => exact Or.inl (refused_of_busy idle)
  | true =>
    rw [whenIdle_of_idle idle]
    cases checked : g.checkEdge source output target input with
    | error e => exact Or.inl ⟨⟨_, rfl⟩, rfl⟩
    | ok ports =>
      obtain ⟨⟨s, knownSource, _⟩, ⟨t, knownTarget, _⟩, _⟩ := checkEdge_eq_ok.mp checked
      exact Or.inr ⟨eq_ref_of_own (resolve_eq_ok.mp knownSource).1,
        eq_ref_of_own (resolve_eq_ok.mp knownTarget).1, rfl, rfl⟩

theorem removeEdge_cases (g : Graph) (id : EdgeId) :
    g.Refused (g.removeEdge id) ∨
      (g.removeEdge id).result = .ok () ∧ (g.removeEdge id).graph = g.detachEdge id := by
  unfold removeEdge
  cases idle : g.isIdle with
  | false => exact Or.inl (refused_of_busy idle)
  | true =>
    rw [whenIdle_of_idle idle]
    cases g.edge? id with
    | none => exact Or.inl ⟨⟨_, rfl⟩, rfl⟩
    | some edge => exact Or.inr ⟨rfl, rfl⟩

theorem size_edges_detachEdges (ids : List EdgeId) (g : Graph) :
    (ids.foldl detachEdge g).edges.size = g.edges.size := by
  induction ids generalizing g with
  | nil => rfl
  | cons first rest ih =>
    rw [List.foldl_cons, ih]
    unfold detachEdge
    split
    · rfl
    · exact Array.size_setIfInBounds

/-- The removal of a node takes the node and exactly the edges that start or end at it. -/
theorem Integrity.removeNode_cases (whole : g.Integrity) (ref : NodeRef) :
    g.Refused (g.removeNode ref) ∨
      ref = g.ref ref.node ∧ (g.removeNode ref).result = .ok () ∧
        (∀ id, (g.removeNode ref).graph.node? id =
          if id = ref.node then none else g.node? id) ∧
        (∀ id, (g.removeNode ref).graph.edge? id =
          (g.edge? id).filter fun edge => edge.source ≠ ref.node ∧ edge.target ≠ ref.node) ∧
        (g.removeNode ref).graph.edges.size = g.edges.size := by
  unfold Graph.removeNode
  cases idle : g.isIdle with
  | false => exact Or.inl (refused_of_busy idle)
  | true =>
    rw [whenIdle_of_idle idle]
    cases found : g.resolve ref with
    | error e => exact Or.inl ⟨⟨_, rfl⟩, rfl⟩
    | ok node =>
      obtain ⟨own, _⟩ := resolve_eq_ok.mp found
      obtain ⟨_, ⟨nodes, _⟩, edges⟩ := (whole.cleared ref.node).detachEdges
        ((g.adjacentTo ref.node).incoming ++ (g.adjacentTo ref.node).outgoing)
      have size := size_edges_detachEdges
        ((g.adjacentTo ref.node).incoming ++ (g.adjacentTo ref.node).outgoing)
        { g with adjacency := g.adjacency.setIfInBounds ref.node.index {} }
      refine Or.inr ⟨eq_ref_of_own own, rfl, fun id => ?_, fun id => ?_, size⟩
      · simp only [accept, nodes]
        exact g.node?_withoutNode ref.node id
      · refine (edges id).trans ?_
        simp only [List.mem_append, (whole.lists ref.node).1.mem_iff,
          (whole.lists ref.node).2.mem_iff]
        change (if _ then none else g.edge? id) = _
        cases g.edge? id with
        | none => simp
        | some edge =>
          by_cases ends : edge.target = ref.node
          · simp [ends, Option.filter]
          · by_cases starts : edge.source = ref.node
            · simp [starts, Option.filter]
            · simp [starts, ends, Option.filter]

end Flowgraph.Graph
