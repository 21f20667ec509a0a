import Flowgraph.Proofs.Saved.RoundTrip
import Flowgraph.Proofs.Tick.Outcome

namespace Flowgraph

open Propagation (Turn)

/-- The places of a queue from its beginning: those of the runs so far and those of the nodes that
wait. -/
def Propagation.places (p : Propagation) : List NodeId :=
  p.trace.toList.map (·.node) ++ p.pending

/-- A turn only adds places at the end of the queue. -/
theorem Propagation.Turn.places {p q : Propagation} {keys : Keyboard} {world : World}
    {e : Execution} {node : Node} {rest woken : List NodeId}
    (turn : Turn keys world p q e node rest woken) : q.places = p.places ++ woken := by
  simp [Propagation.places, turn.trace, turn.tail, turn.head]

namespace Graph

variable {g : Graph} {scene : Scene} {p : Propagation}

/-- The nodes that are due at the start have the first places, in their order. -/
theorem Stage.seeds_first (stage : g.Stage scene p) (whole : g.Integrity) :
    g.seeds <+: p.places := by
  refine Stage.induct whole ?_ ?_ stage
  · exact List.prefix_rfl
  · intro p q e node rest woken _ _ turn before
    rw [turn.places]
    exact before.trans (List.prefix_append _ _)

/-- However a tick ends, its runs have the first places of the queue at its last stage. -/
theorem runs_first (whole : g.Integrity) (scene : Scene) : ∃ p, g.Stage scene p ∧
    (g.trace scene).toList.map (·.node) <+: p.places := by
  unfold trace
  have ends := g.propagate_ends scene
  generalize g.propagate scene = result at ends ⊢
  cases ends with
  | settled stage | capped stage => exact ⟨_, stage, List.prefix_append _ _⟩
  | escaped stage queue ran =>
    obtain ⟨e, node, cut⟩ := (stage.running whole).queued.cutShort queue ran
    refine ⟨_, stage, ?_⟩
    simp [Propagation.places, cut.trace, cut.head]

theorem length_seeds_le (whole : g.Integrity) : g.seeds.length ≤ g.liveNodes := by
  rw [whole.liveNodes, seeds, List.length_map]
  exact List.length_filter_le _ _

theorem le_cap (factor : 1 ≤ g.config.capFactor) (counted : g.liveNodes ≤ GraphConfig.maxCap) :
    g.liveNodes ≤ g.cap := by
  unfold cap GraphConfig.cap
  exact Nat.le_min.mpr ⟨Nat.le_mul_of_pos_left _ factor, counted⟩

/-- A completed tick that may run as often as there are nodes begins with the nodes that are due. -/
theorem LastStage.seeds_ran {report : TickReport} (last : g.LastStage scene report p)
    (whole : g.Integrity) (room : g.liveNodes ≤ g.cap) :
    g.seeds <+: (g.trace scene).toList.map (·.node) := by
  have seeds := last.stage.seeds_first whole
  rw [last.trace]
  cases ended : report.overflowed with
  | false => rwa [Propagation.places, last.settled ended, List.append_nil] at seeds
  | true =>
    -- the runs and the seeds both come first, and there have been enough runs
    refine List.prefix_of_prefix_length_le seeds (List.prefix_append _ _) ?_
    have few := length_seeds_le whole
    have spent := (last.capped ended).2
    have counted := (last.stage.running whole).counted
    simp only [List.length_map, Array.length_toList]
    omega

def balk : Template.Declaration :=
  .plain "flow" "Balk" [⟨"in", .any, none⟩] [] (fun _ _ => { outcome := .failed "balked" }) false

/-- A seed that reaches a join on two ways, and a node that fails. No tick may run more often than
there are nodes. -/
def hurried : Graph :=
  let ref (slot : Nat) : NodeRef := ⟨⟨0⟩, ⟨slot⟩⟩
  (empty ⟨0⟩ (Registry.declare {} (flow ++ [balk])) { capFactor := 1 }).afterAll
    [.addNode "Seed", .addNode "Relay", .addNode "Join", .addNode "Balk",
      .addEdge (ref 0) 0 (ref 2) 0, .addEdge (ref 0) 0 (ref 1) 0, .addEdge (ref 1) 0 (ref 2) 1,
      .addEdge (ref 0) 0 (ref 3) 0, .activate (ref 0)]

theorem reachable_hurried : hurried.Reachable := (Reachable.empty _ _ _).afterAll _

def balked : NodeFault := ⟨⟨3⟩, "Balk", .evaluationFailed (.stated "balked")⟩

/-- The join is due for the second time when the tick meets its cap. -/
theorem tick_hurried :
    (hurried.tick quiet).result = .ok ⟨4, [balked, ⟨⟨2⟩, "Join", .overflow 4⟩], true⟩ := rfl

end Graph

end Flowgraph
