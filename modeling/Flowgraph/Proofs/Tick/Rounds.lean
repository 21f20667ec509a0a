import Flowgraph.Proofs.Graph.Paths
import Flowgraph.Proofs.Tick.Places

namespace Flowgraph

open Propagation (Turn)

/-- The places in a queue with the rounds that they belong to: those of the runs so far, and those
of the nodes that wait. -/
structure Rounds (g : Graph) (p : Propagation) (past next : List (NodeId × Nat)) : Prop where
  ran : past.map Prod.fst = p.trace.toList.map (·.node)
  waits : next.map Prod.fst = p.pending
  /-- No node is in a round twice. -/
  once : (past ++ next).Nodup
  ordered : (past ++ next).Pairwise (·.2 ≤ ·.2)
  /-- Only two rounds wait at a time. -/
  near : ∀ a ∈ next, ∀ b ∈ next, b.2 ≤ a.2 + 1
  reached : ∀ a ∈ past ++ next, ∃ start, g.Path a.2 start a.1

namespace Rounds

variable {g : Graph} {p q : Propagation} {scene : Scene} {past next : List (NodeId × Nat)}
  {id : NodeId} {round : Nat}

theorem places (rounds : Rounds g p past next) : p.places = (past ++ next).map Prod.fst := by
  rw [Propagation.places, List.map_append, rounds.ran, rounds.waits]

theorem start (whole : g.Integrity) (entity : Entity) :
    Rounds g (Propagation.start g entity) [] (g.seeds.map (·, 0)) := by
  have queued := (g.running_start whole entity).queued
  constructor
  · rfl
  · simp [Propagation.start, Graph.seeds]
  · exact queued.nodup.map fun a b same => (Prod.mk.inj same).1
  · exact List.pairwise_map.mpr (List.pairwise_of_forall fun _ _ => Nat.le_refl 0)
  · simp
  · intro a member
    obtain ⟨id, seed, rfl⟩ := List.mem_map.mp member
    obtain ⟨node, live, _⟩ := (queued.mem_iff id).mp seed
    exact ⟨id, .here ⟨node, live⟩⟩

/-- No place is later than the round after that of the head of the queue. -/
theorem le_succ_head (rounds : Rounds g p past ((id, round) :: next)) :
    ∀ a ∈ past ++ (id, round) :: next, a.2 ≤ round + 1 := by
  intro a member
  rcases List.mem_append.mp member with ran | waits
  · have ordered := (List.pairwise_append.mp rounds.ordered).2.2 a ran (id, round)
      List.mem_cons_self
    exact Nat.le_succ_of_le ordered
  · exact rounds.near (id, round) List.mem_cons_self a waits

theorem head_le (rounds : Rounds g p past ((id, round) :: next)) : ∀ a ∈ next, round ≤ a.2 :=
  (List.pairwise_cons.mp (List.pairwise_append.mp rounds.ordered).2.1).1

/-- A node that does not wait behind the head has no place yet in the round after it. -/
theorem fresh (rounds : Rounds g p past ((id, round) :: next)) {other : NodeId}
    (absent : other ∉ next.map Prod.fst) : (other, round + 1) ∉ past ++ (id, round) :: next := by
  intro placed
  rcases List.mem_append.mp placed with ran | waits
  · have ordered := (List.pairwise_append.mp rounds.ordered).2.2 _ ran (id, round)
      List.mem_cons_self
    simp only at ordered
    omega
  · rcases List.mem_cons.mp waits with same | waits
    · simp at same
    · exact absent (List.mem_map_of_mem waits)

/-- What a turn awakens is in the round after that of the node that runs. -/
theorem turn {e : Execution} {node : Node} {rest woken : List NodeId}
    (rounds : Rounds g p past next) (running : g.Running p)
    (turn : Turn scene.keys scene.world p q e node rest woken) :
    ∃ past next, Rounds g q past next := by
  obtain ⟨⟨id, round⟩, later, rfl, own, names⟩ := List.map_eq_cons_iff.mp
    (rounds.waits.trans turn.head)
  simp only at own
  subst own
  let added := woken.map (·, round + 1)
  have placed : past ++ [(e.node, round)] ++ (later ++ added) =
      past ++ (e.node, round) :: later ++ added := by simp
  have inAdded (a : NodeId × Nat) (member : a ∈ added) : a.1 ∈ woken ∧ a.2 = round + 1 := by
    obtain ⟨other, awoken, rfl⟩ := List.mem_map.mp member
    exact ⟨awoken, rfl⟩
  -- the head keeps its round among the runs; what it awakens comes last, in the next round
  refine ⟨past ++ [(e.node, round)], later ++ added, ?_, ?_, ?_, ?_, ?_, ?_⟩
  · rw [turn.trace, Array.toList_push, List.map_append, List.map_append, rounds.ran]
    rfl
  · rw [List.map_append, names, turn.tail, List.map_map]
    simp [Function.comp_def]
  · rw [placed, List.nodup_append]
    refine ⟨rounds.once, turn.nodup.map fun a b same => (Prod.mk.inj same).1, ?_⟩
    rintro ⟨other, _⟩ old _ new rfl
    obtain ⟨awoken, rfl⟩ := inAdded _ new
    exact rounds.fresh (names ▸ ((turn.mem_woken other).mp awoken).2.2) old
  · rw [placed, List.pairwise_append]
    refine ⟨rounds.ordered, List.pairwise_map.mpr ?_, fun a old b new => ?_⟩
    · exact List.pairwise_of_forall fun _ _ => Nat.le_refl _
    · rw [(inAdded b new).2]
      exact rounds.le_succ_head a old
  · have bounds (a : NodeId × Nat) (member : a ∈ later ++ added) :
        round ≤ a.2 ∧ a.2 ≤ round + 1 := by
      rcases List.mem_append.mp member with waits | new
      · exact ⟨rounds.head_le a waits, rounds.le_succ_head a (by simp [waits])⟩
      · rw [(inAdded a new).2]
        omega
    intro a inA b inB
    exact (bounds b inB).2.trans (Nat.succ_le_succ (bounds a inA).1)
  · rw [placed]
    intro a member
    rcases List.mem_append.mp member with old | new
    · exact rounds.reached a old
    · obtain ⟨awoken, last⟩ := inAdded a new
      obtain ⟨start, path⟩ := rounds.reached (e.node, round) (by simp)
      obtain ⟨⟨_, edgeId, edge, _, live, source, _, target⟩, _⟩ := (turn.mem_woken a.1).mp awoken
      rw [running.edge?] at live
      exact ⟨start, last ▸ path.step ⟨edgeId, edge, live, source, target⟩⟩

/-- A node has at most one place for each length of a path to it. -/
theorem count_le (rounds : Rounds g p past next) {length : Nat}
    (longest : g.LongestTo id length) : p.places.count id ≤ 1 + length := by
  let own := (past ++ next).filter (·.1 == id)
  have inside : own.toFinset ⊆ (Finset.range (1 + length)).image (id, ·) := by
    rintro ⟨other, round⟩ member
    obtain ⟨placed, same⟩ := List.mem_filter.mp (List.mem_toFinset.mp member)
    obtain rfl : other = id := eq_of_beq same
    have bound : round ≤ length := longest.2 (rounds.reached _ placed)
    exact Finset.mem_image_of_mem _ (Finset.mem_range.mpr (by omega))
  calc p.places.count id = own.length := by
        rw [rounds.places, List.count, List.countP_map, List.countP_eq_length_filter]
        rfl
    _ = own.toFinset.card := (List.toFinset_card_of_nodup (rounds.once.filter _)).symm
    _ ≤ ((Finset.range (1 + length)).image (id, ·)).card := Finset.card_le_card inside
    _ ≤ 1 + length := Finset.card_image_le.trans (Finset.card_range _).le

end Rounds

namespace Graph

variable {g : Graph} {scene : Scene} {p : Propagation} {id : NodeId}

/-- At every stage of a tick the places in the queue fall into rounds. -/
theorem Stage.rounds (stage : g.Stage scene p) (whole : g.Integrity) :
    ∃ past next, Rounds g p past next := by
  refine Stage.induct whole ?_ ?_ stage
  · exact ⟨_, _, .start whole scene.entity⟩
  · rintro p q e node rest woken _ running turn ⟨_, _, rounds⟩
    exact rounds.turn running turn

/-- Without cycles a queue never comes to have more places than there are pairs of nodes. -/
theorem Stage.places_le (stage : g.Stage scene p) (whole : g.Integrity) (acyclic : g.Acyclic) :
    2 * p.places.length ≤ g.liveNodes * (g.liveNodes + 1) := by
  obtain ⟨past, next, rounds⟩ := stage.rounds whole
  have inside (id : NodeId) (member : id ∈ (p.places : Multiset NodeId)) : id ∈ g.numbers := by
    rw [Multiset.mem_coe, rounds.places] at member
    obtain ⟨a, placed, rfl⟩ := List.mem_map.mp member
    obtain ⟨_, path⟩ := rounds.reached a placed
    exact whole.mem_numbers.mpr (whole.live_end path)
  have few (id : NodeId) (member : id ∈ g.numbers) :
      p.places.count id ≤ 1 + (g.ancestors id).card := by
    obtain ⟨length, longest⟩ := acyclic.exists_longest whole (whole.mem_numbers.mp member)
    obtain ⟨_, path⟩ := longest.1
    exact (rounds.count_le longest).trans (Nat.add_le_add_left (acyclic.length_le whole path) 1)
  calc 2 * p.places.length = 2 * ∑ id ∈ g.numbers, p.places.count id := by
        rw [← Multiset.coe_card, ← Multiset.sum_count_eq_card inside]
        simp only [Multiset.coe_count]
    _ ≤ 2 * ∑ id ∈ g.numbers, (1 + (g.ancestors id).card) :=
        Nat.mul_le_mul_left 2 (Finset.sum_le_sum few)
    _ ≤ g.liveNodes * (g.liveNodes + 1) := acyclic.sum_ancestors_le whole

/-- A cap below the number of pairs of nodes comes of a factor of at most half the number of nodes,
unless there are so many nodes that the cap is the largest count. -/
theorem factor_le_of_cap_lt (config : GraphConfig) {nodes : Nat} (few : nodes ≤ UInt32.size)
    (less : 2 * (config.cap nodes + 1) ≤ nodes * (nodes + 1)) :
    2 * config.capFactor ≤ nodes := by
  -- with a greater factor the cap is no less than the number of pairs, or than any count
  by_contra more
  have pairs : nodes * (nodes + 1) ≤ 2 * (config.capFactor * nodes) := by
    rw [← Nat.mul_assoc, Nat.mul_comm (2 * _)]
    exact Nat.mul_le_mul_left nodes (by omega)
  have counted : nodes * (nodes + 1) ≤ 2 * GraphConfig.maxCap :=
    (Nat.mul_le_mul few (Nat.succ_le_succ few)).trans (by decide)
  unfold GraphConfig.cap at less
  omega

/-- In a tick of a graph whose edges form no cycle, whichever of its nodes are due, a node runs at
most once and once more for each edge of the longest path to it. So the tick takes at most as many
runs as there are pairs of nodes, and ends at its cap only if the factor of the cap is at most half
the number of nodes, as long as that is a number of 32 bits. -/
theorem acyclic_runs_bounded {origin : Graph} (reach : origin.Reachable)
    (same : g.program = origin.program) (acyclic : g.Acyclic) (scene : Scene) :
    (∀ id, g.Live id → ∃ length, g.LongestTo id length ∧
      (g.trace scene).toList.countP (·.node = id) ≤ 1 + length) ∧
    (g.trace scene).size ≤ g.liveNodes * (g.liveNodes + 1) / 2 ∧
    ∀ report, (g.tick scene).result = .ok report →
      report.executions = (g.trace scene).size ∧
      (report.overflowed = true → g.liveNodes ≤ UInt32.size →
        2 * g.config.capFactor ≤ g.liveNodes) := by
  have whole := reach.integrity.of_program same
  obtain ⟨p, stage, first⟩ := runs_first whole scene
  refine ⟨fun id live => ?_, ?_, fun report done => ?_⟩
  · obtain ⟨length, longest⟩ := acyclic.exists_longest whole live
    obtain ⟨past, next, rounds⟩ := stage.rounds whole
    refine ⟨length, longest, ?_⟩
    calc (g.trace scene).toList.countP (·.node = id)
        = ((g.trace scene).toList.map (·.node)).count id := by
          rw [List.count, List.countP_map]
          rfl
      _ ≤ p.places.count id := first.sublist.count_le id
      _ ≤ 1 + length := rounds.count_le longest
  · have shorter := first.length_le
    have few := stage.places_le whole acyclic
    simp only [List.length_map, Array.length_toList] at shorter
    omega
  · obtain ⟨p, last⟩ := lastStage_of_tick whole done
    refine ⟨(last.size_trace whole).symm, fun overflowed few => ?_⟩
    obtain ⟨waiting, spent⟩ := last.capped overflowed
    have counted := (last.stage.running whole).counted
    have waits := List.length_pos_iff.mpr waiting
    have places := last.stage.places_le whole acyclic
    simp only [Propagation.places, List.length_append, List.length_map, Array.length_toList,
      counted, spent] at places
    exact factor_le_of_cap_lt g.config few (Nat.le_trans (by rw [← cap]; omega) places)

theorem acyclic_runs_bounded_hurried :
    hurried.Reachable ∧ hurried.Acyclic ∧ hurried.LongestTo ⟨2⟩ 2 ∧
      (hurried.trace quiet).toList.countP (·.node = ⟨2⟩) ≤ 1 + 2 ∧
      (hurried.trace quiet).size ≤ 4 * (4 + 1) / 2 ∧
      (hurried.tick quiet).result = .ok ⟨4, [balked, ⟨⟨2⟩, "Join", .overflow 4⟩], true⟩ ∧
      2 * hurried.config.capFactor ≤ 4 := by
  have newer : ∀ edge ∈ hurried.wires, edge.source.index < edge.target.index := by decide +kernel
  have ascending (a b : NodeId) (wire : hurried.Wire a b) : a.index < b.index := by
    obtain ⟨id, edge, live, rfl, rfl⟩ := wire
    exact newer edge (mem_wires.mpr ⟨id, live⟩)
  have acyclic := acyclic_of_ascending ascending
  have longest : hurried.LongestTo ⟨2⟩ 2 := by
    constructor
    · have relay : hurried.Wire ⟨0⟩ ⟨1⟩ := ⟨⟨1⟩, _, rfl, rfl, rfl⟩
      have join : hurried.Wire ⟨1⟩ ⟨2⟩ := ⟨⟨2⟩, _, rfl, rfl, rfl⟩
      exact ⟨⟨0⟩, ((Path.here ⟨_, rfl⟩).step relay).step join⟩
    · rintro n ⟨a, path⟩
      have bound := path.ascends ascending
      simp only at bound
      omega
  obtain ⟨each, all, ended⟩ := acyclic_runs_bounded reachable_hurried rfl acyclic quiet
  obtain ⟨length, greatest, count⟩ := each ⟨2⟩ ⟨_, rfl⟩
  rw [greatest.unique longest] at count
  obtain ⟨_, factor⟩ := ended _ tick_hurried
  exact ⟨reachable_hurried, acyclic, longest, count, all, tick_hurried, factor rfl (by decide)⟩

end Graph

end Flowgraph
