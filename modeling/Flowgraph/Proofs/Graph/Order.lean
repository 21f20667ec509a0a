import Mathlib.Data.List.Basic
import Flowgraph.Proofs.Graph.Edits

namespace Flowgraph

/-- Lists that ascend in the same key and have the same members are the same. -/
theorem eq_of_ascending {α : Type} (key : α → Nat) {xs ys : List α}
    (left : xs.Pairwise fun a b => key a < key b) (right : ys.Pairwise fun a b => key a < key b)
    (same : ∀ x, x ∈ xs ↔ x ∈ ys) : xs = ys := by
  induction xs generalizing ys with
  | nil =>
    cases ys with
    | nil => rfl
    | cons y rest => exact absurd ((same y).mpr List.mem_cons_self) List.not_mem_nil
  | cons x xs ih =>
    cases ys with
    | nil => exact absurd ((same x).mp List.mem_cons_self) List.not_mem_nil
    | cons y ys =>
      obtain ⟨aboveX, leftRest⟩ := List.pairwise_cons.mp left
      obtain ⟨aboveY, rightRest⟩ := List.pairwise_cons.mp right
      -- each head is in the other list, and neither can come later there
      have first : x = y := by
        rcases List.mem_cons.mp ((same x).mp List.mem_cons_self) with here | later
        · exact here
        · rcases List.mem_cons.mp ((same y).mpr List.mem_cons_self) with here | after
          · exact here.symm
          · have := aboveX y after
            have := aboveY x later
            omega
      subst first
      have others (z : α) : z ∈ xs ↔ z ∈ ys := by
        have apart {zs : List α} (above : ∀ z ∈ zs, key x < key z) : x ∉ zs := fun member =>
          Nat.lt_irrefl _ (above x member)
        have atZ := same z
        rw [List.mem_cons, List.mem_cons] at atZ
        constructor
        · intro member
          rcases atZ.mp (Or.inr member) with rfl | there
          · exact absurd member (apart aboveX)
          · exact there
        · intro member
          rcases atZ.mpr (Or.inr member) with rfl | there
          · exact absurd member (apart aboveY)
          · exact there
      rw [ih leftRest rightRest others]

namespace Graph

variable {g : Graph}

/-- The live edges, oldest first. -/
def wires (g : Graph) : List Edge := g.edges.toList.filterMap fun slot => slot

theorem mem_wires {edge : Edge} : edge ∈ g.wires ↔ ∃ id, g.edge? id = some edge := by
  simp only [wires, List.mem_filterMap, edge?_eq_some, Array.mem_toList_iff]
  constructor
  · rintro ⟨slot, member, rfl⟩
    obtain ⟨index, bound, read⟩ := Array.mem_iff_getElem.mp member
    exact ⟨⟨index⟩, by rw [Array.getElem?_eq_getElem bound, read]⟩
  · rintro ⟨id, read⟩
    exact ⟨some edge, Array.mem_of_getElem? read, rfl⟩

theorem edgeList_map_snd (g : Graph) : g.edgeList.map Prod.snd = g.wires := by
  have slots : g.edges.toList = g.edges.toList.zipIdx.map Prod.fst := by simp
  have forget (slot : Option Edge × Nat) :
      (slot.1.map fun edge => ((⟨slot.2⟩, edge) : EdgeId × Edge)).map Prod.snd = slot.1 := by
    cases slot.1 <;> rfl
  rw [wires, slots, List.filterMap_map, edgeList, List.map_filterMap]
  exact List.filterMap_congr fun slot _ => forget slot

theorem mem_edgeList {id : EdgeId} {edge : Edge} :
    (id, edge) ∈ g.edgeList ↔ g.edge? id = some edge := by
  simp only [edgeList, List.mem_filterMap, edge?_eq_some, Option.map_eq_some_iff]
  constructor
  · rintro ⟨⟨slot, index⟩, member, found, read, same⟩
    cases same
    have atIndex := List.mk_mem_zipIdx_iff_getElem?.mp member
    rw [Array.getElem?_toList] at atIndex
    exact atIndex.trans (congrArg some read)
  · intro read
    refine ⟨(some edge, id.index), ?_, edge, rfl, rfl⟩
    rw [List.mk_mem_zipIdx_iff_getElem?, Array.getElem?_toList]
    exact read

theorem edgeList_ascending (g : Graph) :
    g.edgeList.Pairwise fun a b => a.1.index < b.1.index := by
  unfold edgeList
  rw [List.pairwise_filterMap, List.pairwise_iff_getElem]
  intro i j boundI boundJ before a atI b atJ
  simp only [List.getElem_zipIdx, Nat.zero_add, Option.map_eq_some_iff] at atI atJ
  obtain ⟨_, _, rfl⟩ := atI
  obtain ⟨_, _, rfl⟩ := atJ
  exact before

theorem wires_withEdge (g : Graph) (edge : Edge) :
    (g.withEdge edge).wires = g.wires ++ [edge] := by
  simp only [wires, withEdge, Array.toList_push, List.filterMap_append]
  rfl

/-- A list of edges at a node has them in the order of the edges. -/
theorem Lists.filterMap_edge? {ids : List EdgeId} {holds : Edge → Prop} [DecidablePred holds]
    (lists : g.Lists ids holds) :
    ids.filterMap g.edge? = g.wires.filter fun edge => decide (holds edge) := by
  have members : ids = (g.edgeList.filter fun entry => decide (holds entry.2)).map Prod.fst := by
    refine eq_of_ascending EdgeId.index lists.ascending ?_ fun id => ?_
    · exact List.pairwise_map.mpr (g.edgeList_ascending.filter _)
    · rw [lists.mem_iff, List.mem_map]
      constructor
      · rintro ⟨edge, live, held⟩
        exact ⟨(id, edge), List.mem_filter.mpr ⟨mem_edgeList.mpr live, decide_eq_true held⟩, rfl⟩
      · rintro ⟨⟨_, edge⟩, member, rfl⟩
        obtain ⟨listed, held⟩ := List.mem_filter.mp member
        exact ⟨edge, mem_edgeList.mp listed, of_decide_eq_true held⟩
  have ends {entry : EdgeId × Edge}
      (member : entry ∈ g.edgeList.filter fun entry => decide (holds entry.2)) :
      g.edge? entry.1 = some entry.2 :=
    mem_edgeList.mp (List.mem_filter.mp member).1
  rw [members, List.filterMap_map, ← edgeList_map_snd, List.filter_map, ← List.filterMap_eq_map]
  exact List.filterMap_congr fun entry member => ends member

/-- The edges into a node are those of all edges that end there, in the order of creation. -/
theorem Integrity.incoming_eq (whole : g.Integrity) (id : NodeId) :
    g.incoming id = g.wires.filter fun edge => decide (edge.target = id) :=
  (whole.lists id).1.filterMap_edge?

theorem Integrity.outgoing_eq (whole : g.Integrity) (id : NodeId) :
    g.outgoing id = g.wires.filter fun edge => decide (edge.source = id) :=
  (whole.lists id).2.filterMap_edge?

end Graph

end Flowgraph
