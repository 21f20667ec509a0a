import Mathlib.Combinatorics.Enumerative.DoubleCounting
import Mathlib.Order.Lattice.Nat
import Flowgraph.Proofs.Graph.Integrity

namespace Flowgraph.Graph

/-- An edge leads from one node to another. -/
def Wire (g : Graph) (a b : NodeId) : Prop :=
  ∃ id edge, g.edge? id = some edge ∧ edge.source = a ∧ edge.target = b

/-- A path along the edges, with their number. -/
inductive Path (g : Graph) : Nat → NodeId → NodeId → Prop
  | here {id : NodeId} : g.Live id → Path g 0 id id
  | step {n : Nat} {a b c : NodeId} : Path g n a b → g.Wire b c → Path g (n + 1) a c

/-- A path of at least one edge leads from one node to another. -/
def Precedes (g : Graph) (a b : NodeId) : Prop := ∃ n, g.Path (n + 1) a b

/-- No path comes back to where it starts, not even by a single edge. -/
def Acyclic (g : Graph) : Prop := ∀ id, ¬ g.Precedes id id

/-- The longest path to a node has this many edges. -/
def LongestTo (g : Graph) (id : NodeId) (length : Nat) : Prop :=
  IsGreatest { n | ∃ a, g.Path n a id } length

def numbers (g : Graph) : Finset NodeId := (g.nodeList.map (·.id)).toFinset

open Classical in
noncomputable def ancestors (g : Graph) (id : NodeId) : Finset NodeId :=
  g.numbers.filter (g.Precedes · id)

open Classical in
noncomputable def descendants (g : Graph) (id : NodeId) : Finset NodeId :=
  g.numbers.filter (g.Precedes id ·)

variable {g : Graph} {a b c id : NodeId} {m n : Nat}

theorem Integrity.mem_numbers (whole : g.Integrity) : id ∈ g.numbers ↔ g.Live id := by
  simp only [numbers, List.mem_toFinset, List.mem_map]
  exact exists_congr fun node => whole.live_iff_mem.symm

theorem Integrity.card_numbers (whole : g.Integrity) : g.numbers.card = g.liveNodes := by
  have nodup : (g.nodeList.map (·.id)).Nodup := List.pairwise_map.mpr <|
    whole.ascending.imp fun before same => Nat.ne_of_lt before (congrArg NodeId.index same)
  rw [numbers, List.toFinset_card_of_nodup nodup, List.length_map, whole.liveNodes]

theorem Path.trans (first : g.Path m a b) (second : g.Path n b c) : g.Path (m + n) a c := by
  induction second with
  | here => exact first
  | step _ wire ih => exact (ih first).step wire

theorem Path.live_start (path : g.Path n a b) : g.Live a := by
  induction path with
  | here live => exact live
  | step _ _ ih => exact ih

theorem Integrity.live_end (whole : g.Integrity) (path : g.Path n a b) : g.Live b := by
  cases path with
  | here live => exact live
  | step _ wire =>
    obtain ⟨edgeId, edge, atEdge, _, rfl⟩ := wire
    obtain ⟨_, target, _, atTarget, _⟩ := whole.ends edgeId edge atEdge
    exact ⟨target, atTarget⟩

/-- The ancestors of a node are those from which a path leads to it. -/
theorem Integrity.mem_ancestors (whole : g.Integrity) : a ∈ g.ancestors b ↔ g.Precedes a b := by
  classical
  rw [ancestors, Finset.mem_filter, whole.mem_numbers]
  exact and_iff_right_of_imp fun ⟨_, path⟩ => path.live_start

theorem Integrity.mem_descendants (whole : g.Integrity) :
    b ∈ g.descendants a ↔ g.Precedes a b := by
  classical
  rw [descendants, Finset.mem_filter, whole.mem_numbers]
  exact and_iff_right_of_imp fun ⟨_, path⟩ => whole.live_end path

/-- A path has at most as many edges as its end has ancestors. -/
theorem Acyclic.length_le (acyclic : g.Acyclic) (whole : g.Integrity) (path : g.Path n a b) :
    n ≤ (g.ancestors b).card := by
  induction path with
  | here => exact Nat.zero_le _
  | @step n a b c path wire ih =>
    -- the ancestors of the end are those of the node before it and that node itself
    have fresh : b ∉ g.ancestors b := fun itself => acyclic b (whole.mem_ancestors.mp itself)
    have more : insert b (g.ancestors b) ⊆ g.ancestors c := by
      intro other member
      rw [whole.mem_ancestors]
      rcases Finset.mem_insert.mp member with rfl | member
      · exact ⟨0, (Path.here (whole.live_end path)).step wire⟩
      · obtain ⟨k, way⟩ := whole.mem_ancestors.mp member
        exact ⟨k + 1, way.step wire⟩
    calc n + 1 ≤ (g.ancestors b).card + 1 := Nat.succ_le_succ ih
      _ = (insert b (g.ancestors b)).card := (Finset.card_insert_of_notMem fresh).symm
      _ ≤ (g.ancestors c).card := Finset.card_le_card more

/-- Without cycles there is a longest path to each node. -/
theorem Acyclic.exists_longest (acyclic : g.Acyclic) (whole : g.Integrity) (live : g.Live id) :
    ∃ length, g.LongestTo id length := by
  have nonempty : { n | ∃ a, g.Path n a id }.Nonempty := ⟨0, id, .here live⟩
  have bounded : BddAbove { n | ∃ a, g.Path n a id } :=
    ⟨(g.ancestors id).card, fun n ⟨_, path⟩ => acyclic.length_le whole path⟩
  exact ⟨_, Nat.sSup_mem nonempty bounded, fun n member => le_csSup bounded member⟩

/-- Where edges only lead to newer nodes, a path is no longer than the numbers at its ends allow. -/
theorem Path.ascends (ascending : ∀ a b, g.Wire a b → a.index < b.index) (path : g.Path n a b) :
    a.index + n ≤ b.index := by
  induction path with
  | here => exact Nat.le_refl _
  | step _ wire ih =>
    have newer := ascending _ _ wire
    omega

/-- Where every edge leads to a newer node there is no cycle. -/
theorem acyclic_of_ascending (ascending : ∀ a b, g.Wire a b → a.index < b.index) :
    g.Acyclic := by
  rintro id ⟨n, cycle⟩
  have newer := cycle.ascends ascending
  omega

theorem Acyclic.asymm (acyclic : g.Acyclic) (before : g.Precedes a b) : ¬ g.Precedes b a := by
  rintro ⟨n, back⟩
  obtain ⟨m, path⟩ := before
  exact acyclic a ⟨m + 1 + n, path.trans back⟩

/-- A node, its ancestors and its descendants are all different nodes. -/
theorem Acyclic.card_kin_le (acyclic : g.Acyclic) (whole : g.Integrity) (live : g.Live id) :
    1 + (g.ancestors id).card + (g.descendants id).card ≤ g.liveNodes := by
  have disjoint : Disjoint (g.ancestors id) (g.descendants id) := by
    rw [Finset.disjoint_left]
    intro other above below
    exact acyclic.asymm (whole.mem_ancestors.mp above) (whole.mem_descendants.mp below)
  have fresh : id ∉ g.ancestors id ∪ g.descendants id := by
    rw [Finset.mem_union, whole.mem_ancestors, whole.mem_descendants, or_self]
    exact acyclic id
  have inside : insert id (g.ancestors id ∪ g.descendants id) ⊆ g.numbers := by
    classical
    rw [Finset.insert_subset_iff, Finset.union_subset_iff, whole.mem_numbers]
    exact ⟨live, Finset.filter_subset _ _, Finset.filter_subset _ _⟩
  have counted := Finset.card_le_card inside
  rw [Finset.card_insert_of_notMem fresh, Finset.card_union_of_disjoint disjoint,
    whole.card_numbers] at counted
  omega

/-- Each node with its ancestors, for all nodes together, comes to at most as many as there are
pairs of nodes, each with itself included. -/
theorem Acyclic.sum_ancestors_le (acyclic : g.Acyclic) (whole : g.Integrity) :
    2 * ∑ id ∈ g.numbers, (1 + (g.ancestors id).card) ≤ g.liveNodes * (g.liveNodes + 1) := by
  classical
  -- over all nodes together there are as many descendants as ancestors
  have mirrored : ∑ id ∈ g.numbers, (g.descendants id).card =
      ∑ id ∈ g.numbers, (g.ancestors id).card :=
    Finset.sum_card_bipartiteAbove_eq_sum_card_bipartiteBelow g.Precedes
  calc 2 * ∑ id ∈ g.numbers, (1 + (g.ancestors id).card)
      = ∑ id ∈ g.numbers, (1 + (g.ancestors id).card + (g.descendants id).card + 1) := by
        simp only [Finset.sum_add_distrib, mirrored]
        omega
    _ ≤ ∑ id ∈ g.numbers, (g.liveNodes + 1) := Finset.sum_le_sum fun id member =>
        Nat.succ_le_succ (acyclic.card_kin_le whole (whole.mem_numbers.mp member))
    _ = g.liveNodes * (g.liveNodes + 1) := by
        rw [Finset.sum_const_nat fun _ _ => rfl, whole.card_numbers]

end Flowgraph.Graph
