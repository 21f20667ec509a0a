import Flowgraph.Proofs.Graph.Order
import Flowgraph.Proofs.Graph.Reachable

namespace Flowgraph

/-- An edge with its ends renumbered. -/
def Edge.renumber (rank : NodeId → NodeId) (edge : Edge) : Edge :=
  { edge with source := rank edge.source, target := rank edge.target }

/-- An edge as it is saved when its ends are positions. -/
def Edge.saved (edge : Edge) : SavedEdge :=
  ⟨edge.source.index, edge.output, edge.target.index, edge.input⟩

namespace Graph

variable {g : Graph}

/-- The position of a node in order of creation, and for other numbers one after those. -/
def rank (g : Graph) (id : NodeId) : NodeId :=
  ⟨(g.position? id).getD (g.nodeList.length + id.index)⟩

theorem Integrity.position?_eq_some (whole : g.Integrity) {id : NodeId} {p : Nat} :
    g.position? id = some p ↔ ∃ node, g.nodeList[p]? = some node ∧ node.id = id := by
  unfold position?
  rw [List.findIdx?_eq_some_iff_getElem]
  constructor
  · rintro ⟨bound, here, _⟩
    exact ⟨_, List.getElem?_eq_getElem bound, by simpa using here⟩
  · rintro ⟨node, read, rfl⟩
    obtain ⟨bound, here⟩ := List.getElem?_eq_some_iff.mp read
    refine ⟨bound, by simp [here], fun q before => ?_⟩
    have less := List.pairwise_iff_getElem.mp whole.ascending q p (by omega) bound before
    rw [here] at less
    simp only [beq_iff_eq]
    intro same
    rw [same] at less
    exact Nat.lt_irrefl _ less

theorem Integrity.position?_of_live (whole : g.Integrity) {id : NodeId} (live : g.Live id) :
    ∃ p, g.position? id = some p ∧ p < g.nodeList.length := by
  obtain ⟨node, atId⟩ := live
  obtain ⟨member, own⟩ := whole.live_iff_mem.mp atId
  obtain ⟨p, bound, here⟩ := List.getElem_of_mem member
  refine ⟨p, whole.position?_eq_some.mpr ⟨node, ?_, own⟩, bound⟩
  rw [List.getElem?_eq_getElem bound, here]

theorem Integrity.rank_eq (whole : g.Integrity) {p : Nat} {node : Node}
    (atP : g.nodeList[p]? = some node) : g.rank node.id = ⟨p⟩ := by
  have position : g.position? node.id = some p := whole.position?_eq_some.mpr ⟨node, atP, rfl⟩
  rw [rank, position, Option.getD_some]

/-- Live nodes have their ranks below the number of nodes, without gaps. -/
theorem Integrity.rank_lt (whole : g.Integrity) {id : NodeId} (live : g.Live id) :
    (g.rank id).index < g.nodeList.length := by
  obtain ⟨p, position, bound⟩ := whole.position?_of_live live
  rwa [rank, position, Option.getD_some]

/-- Ranks keep the order of creation. -/
theorem Integrity.rank_strictMono (whole : g.Integrity) {a b : NodeId} (liveA : g.Live a)
    (liveB : g.Live b) (before : a.index < b.index) : (g.rank a).index < (g.rank b).index := by
  obtain ⟨p, positionA, boundP⟩ := whole.position?_of_live liveA
  obtain ⟨q, positionB, boundQ⟩ := whole.position?_of_live liveB
  obtain ⟨nodeA, atP, ownA⟩ := whole.position?_eq_some.mp positionA
  obtain ⟨nodeB, atQ, ownB⟩ := whole.position?_eq_some.mp positionB
  rw [rank, rank, positionA, positionB, Option.getD_some, Option.getD_some]
  rcases Nat.lt_trichotomy p q with less | same | after
  · exact less
  · subst same
    cases atP.symm.trans atQ
    rw [← ownA, ← ownB] at before
    exact absurd before (Nat.lt_irrefl _)
  · have less := List.pairwise_iff_getElem.mp whole.ascending q p boundQ boundP after
    rw [(List.getElem?_eq_some_iff.mp atP).2, (List.getElem?_eq_some_iff.mp atQ).2, ownA, ownB]
      at less
    omega

/-- No two numbers share a rank, since those of no live node follow after all others. -/
theorem Integrity.rank_injective (whole : g.Integrity) {a b : NodeId}
    (same : g.rank a = g.rank b) : a = b := by
  -- a position is below the number of nodes, and what stands in for a missing one is not
  have ranks := congrArg NodeId.index same
  simp only [rank] at ranks
  cases positionA : g.position? a with
  | none =>
    cases positionB : g.position? b with
    | none =>
      simp only [positionA, positionB, Option.getD_none] at ranks
      exact NodeId.index_inj.mp (by omega)
    | some q =>
      obtain ⟨node, atQ, _⟩ := whole.position?_eq_some.mp positionB
      have bound := (List.getElem?_eq_some_iff.mp atQ).1
      simp only [positionA, positionB, Option.getD_none, Option.getD_some] at ranks
      omega
  | some p =>
    obtain ⟨node, atP, ownA⟩ := whole.position?_eq_some.mp positionA
    have bound := (List.getElem?_eq_some_iff.mp atP).1
    cases positionB : g.position? b with
    | none =>
      simp only [positionA, positionB, Option.getD_none, Option.getD_some] at ranks
      omega
    | some q =>
      obtain ⟨other, atQ, ownB⟩ := whole.position?_eq_some.mp positionB
      simp only [positionA, positionB, Option.getD_some] at ranks
      subst ranks
      cases atP.symm.trans atQ
      exact ownA.symm.trans ownB

theorem Integrity.save_edges (whole : g.Integrity) :
    g.save.edges = (g.wires.map (Edge.renumber g.rank)).map Edge.saved := by
  have saved {edge : Edge} (member : edge ∈ g.wires) :
      g.saveEdge? edge = some (edge.renumber g.rank).saved := by
    obtain ⟨id, live⟩ := mem_wires.mp member
    obtain ⟨source, target, atSource, atTarget, _⟩ := whole.ends id edge live
    obtain ⟨p, sourcePosition, _⟩ := whole.position?_of_live ⟨source, atSource⟩
    obtain ⟨q, targetPosition, _⟩ := whole.position?_of_live ⟨target, atTarget⟩
    simp only [saveEdge?, Edge.saved, Edge.renumber, rank, sourcePosition, targetPosition,
      Option.bind_eq_bind, Option.bind_some, Option.getD_some]
  have edges : g.save.edges = g.wires.filterMap g.saveEdge? := by
    rw [← edgeList_map_snd, List.filterMap_map]
    rfl
  rw [edges, List.map_map, ← List.filterMap_eq_map]
  exact List.filterMap_congr fun edge member => saved member

end Graph

end Flowgraph
