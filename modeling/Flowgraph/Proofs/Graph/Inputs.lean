import Flowgraph.Proofs.Graph.Edits
import Flowgraph.Graph.Tick

namespace Flowgraph

namespace Graph

variable {g h : Graph} {id : NodeId} {input : Nat}

/-- The results stored at a node. -/
def storedAt (g : Graph) (id : NodeId) : Option (List Value) := (g.node? id).map (·.outputs)

/-- A wire carries what is stored at its source. -/
theorem Integrity.wired?_of_edge (whole : g.Integrity) {edgeId : EdgeId} {edge : Edge}
    (live : g.edge? edgeId = some edge) :
    g.wired? edge.target edge.input = (g.storedAt edge.source).bind (·[edge.output]?) := by
  have only : ∀ other ∈ (g.incoming edge.target).reverse.filter (·.input == edge.input),
      other = edge := by
    intro other member
    rw [List.mem_filter, List.mem_reverse, beq_iff_eq] at member
    obtain ⟨otherId, atOther, ends⟩ := whole.mem_incoming.mp member.1
    have same := whole.single otherId edgeId other edge atOther live ends member.2
    subst same
    exact Option.some.inj (atOther.symm.trans live)
  have listed : edge ∈ (g.incoming edge.target).reverse.filter (·.input == edge.input) := by
    rw [List.mem_filter, List.mem_reverse, beq_iff_eq]
    exact ⟨whole.mem_incoming.mpr ⟨edgeId, live, rfl⟩, rfl⟩
  have carried : (g.node? edge.source).bind (·.output? edge.output) =
      (g.storedAt edge.source).bind (·[edge.output]?) := by
    unfold storedAt Node.output?
    cases g.node? edge.source <;> rfl
  unfold wired?
  rw [← carried]
  generalize List.filter _ _ = wires at only listed ⊢
  cases value : (g.node? edge.source).bind (·.output? edge.output) with
  | none =>
    rw [List.findSome?_eq_none_iff]
    intro other member
    rw [only other member, value]
  | some v =>
    cases wires with
    | nil => cases listed
    | cons first rest =>
      rw [List.findSome?_cons, only first List.mem_cons_self, value]

theorem Integrity.wired?_eq_none (whole : g.Integrity)
    (unwired : ∀ edgeId edge, g.edge? edgeId = some edge → edge.target = id →
      edge.input ≠ input) : g.wired? id input = none := by
  unfold wired?
  rw [List.findSome?_eq_none_iff]
  intro edge member
  rw [List.mem_filter, List.mem_reverse, beq_iff_eq] at member
  obtain ⟨edgeId, live, ends⟩ := whole.mem_incoming.mp member.1
  exact absurd member.2 (unwired edgeId edge live ends)

/-- What a node would receive, by the template of the node. -/
theorem getElem?_resolveInputs {node : Node} (live : g.node? id = some node) :
    (g.resolveInputs id)[input]? =
      (node.template.inputs[input]?).map fun port => (g.wired? id input).getD port.type.zero := by
  simp only [resolveInputs, live, List.getElem?_map, List.getElem?_zipIdx, Option.map_map]
  cases node.template.inputs[input]? with
  | none => rfl
  | some port => simp

/-- A node receives zero or what is stored at the other end of a wire. -/
theorem Integrity.received (whole : g.Integrity) {node : Node} {port : Port}
    (live : g.node? id = some node) (atPort : node.template.inputs[input]? = some port) :
    (g.resolveInputs id)[input]? = some port.type.zero ∨
      ∃ edgeId edge source v, g.edge? edgeId = some edge ∧ edge.target = id ∧
        edge.input = input ∧ g.node? edge.source = some source ∧
        source.outputs[edge.output]? = some v ∧ (g.resolveInputs id)[input]? = some v := by
  rw [getElem?_resolveInputs live, atPort, Option.map_some]
  by_cases wire : ∃ edgeId edge, g.edge? edgeId = some edge ∧ edge.target = id ∧ edge.input = input
  · obtain ⟨edgeId, edge, atId, rfl, rfl⟩ := wire
    rw [whole.wired?_of_edge atId]
    unfold storedAt
    cases atSource : g.node? edge.source with
    | none => exact Or.inl rfl
    | some source =>
      simp only [Option.map_some, Option.bind_some]
      cases stored : source.outputs[edge.output]? with
      | none => exact Or.inl rfl
      | some v => exact Or.inr ⟨edgeId, edge, source, v, atId, rfl, rfl, atSource, stored, rfl⟩
  · rw [whole.wired?_eq_none fun edgeId edge atId ends port => wire ⟨edgeId, edge, atId, ends, port⟩]
    exact Or.inl rfl

/-- Between graphs of one program, an input differs only if something else is stored at the source
of its wire. -/
theorem Integrity.resolveInputs_congr (whole : g.Integrity) (same : h.program = g.program)
    (sources : ∀ edgeId edge, g.edge? edgeId = some edge → edge.target = id →
      edge.input = input → h.storedAt edge.source = g.storedAt edge.source) :
    (h.resolveInputs id)[input]? = (g.resolveInputs id)[input]? := by
  have edges := edge?_of_program same
  have wired : h.wired? id input = g.wired? id input := by
    by_cases wire : ∃ edgeId edge, g.edge? edgeId = some edge ∧ edge.target = id ∧
        edge.input = input
    · obtain ⟨edgeId, edge, live, rfl, rfl⟩ := wire
      rw [whole.wired?_of_edge live, (whole.of_program same).wired?_of_edge (edges ▸ live),
        sources edgeId edge live rfl rfl]
    · have unwired : ∀ edgeId edge, g.edge? edgeId = some edge → edge.target = id →
          edge.input ≠ input := fun edgeId edge live ends port =>
        wire ⟨edgeId, edge, live, ends, port⟩
      rw [whole.wired?_eq_none unwired, (whole.of_program same).wired?_eq_none (edges ▸ unwired)]
  have skeleton := skeleton_eq_of_program same.symm
  cases live : g.node? id with
  | none =>
    cases twin : h.node? id with
    | none => simp only [resolveInputs, live, twin]
    | some other =>
      obtain ⟨_, atId, _⟩ := node?_of_skeleton skeleton.symm twin
      cases atId.symm.trans live
  | some node =>
    obtain ⟨twin, atId, _, template⟩ := node?_of_skeleton skeleton live
    rw [getElem?_resolveInputs live, getElem?_resolveInputs atId, template, wired]

end Graph

end Flowgraph
