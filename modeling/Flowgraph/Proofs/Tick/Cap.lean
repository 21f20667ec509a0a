import Flowgraph.Proofs.Tick.Overflow

namespace Flowgraph

variable {g : Graph} {scene : Scene} {p q : Propagation} {low high : Nat}

namespace Graph

/-- The graph with another factor of its cap. -/
def withCapFactor (g : Graph) (factor : Nat) : Graph :=
  { g with config := { capFactor := factor } }

theorem setActive_withCapFactor (g : Graph) (id : NodeId) (active : Bool) (factor : Nat) :
    (g.withCapFactor factor).setActive id active = (g.setActive id active).withCapFactor factor := by
  have same : (g.withCapFactor factor).node? id = g.node? id := rfl
  rw [setActive, setActive, same]
  cases g.node? id with
  | none => rfl
  | some node => rfl

theorem awaken_withCapFactor (g : Graph) (pending targets : List NodeId) (factor : Nat) :
    (g.withCapFactor factor).awaken pending targets =
      ((g.awaken pending targets).1.withCapFactor factor, (g.awaken pending targets).2) := by
  induction targets generalizing g pending with
  | nil => rfl
  | cons target rest ih =>
    have alike : (g.withCapFactor factor).awakens target = g.awakens target := rfl
    rw [awaken, awaken, alike]
    split
    · rw [setActive_withCapFactor, ih]
    · exact ih g pending

theorem Integrity.withCapFactor (whole : g.Integrity) (factor : Nat) :
    (g.withCapFactor factor).Integrity :=
  ⟨⟨whole.adjacency_size, whole.ends, whole.single,
    fun id live => (whole.incoming id live).congr fun _ => rfl,
    fun id live => (whole.outgoing id live).congr fun _ => rfl,
    whole.unlisted, whole.liveEdges⟩, whole.own_id, whole.liveNodes⟩

end Graph

namespace Propagation

/-- The propagation over the graph with another cap. -/
def withCapFactor (p : Propagation) (factor : Nat) : Propagation :=
  { p with graph := p.graph.withCapFactor factor }

/-- Nothing that a run does depends on the cap. -/
theorem execute_withCapFactor (p : Propagation) (keys : Keyboard) (world : World) (id : NodeId)
    (factor : Nat) :
    (p.withCapFactor factor).execute keys world id =
      ((p.execute keys world id).1.withCapFactor factor, (p.execute keys world id).2) := by
  cases live : p.graph.node? id with
  | none =>
    have twin : (p.withCapFactor factor).graph.node? id = none := live
    unfold execute
    simp only [live, twin]
    rfl
  | some node =>
    have twin : (p.withCapFactor factor).graph.node? id = some node := live
    have inputs : (p.withCapFactor factor).graph.resolveInputs id = p.graph.resolveInputs id := rfl
    have entity : (p.withCapFactor factor).entity = p.entity := rfl
    rw [execute_eq live, execute_eq twin]
    simp only [inputs, entity]
    generalize node.run (p.graph.resolveInputs id) ⟨p.entity, keys, world⟩ = run
    have rested : (p.withCapFactor factor).graph.setNode id { run.node with active := false } =
      (p.graph.setNode id { run.node with active := false }).withCapFactor factor := rfl
    cases run.outcome with
    | ran activations =>
      simp only [rested]
      generalize p.graph.setNode id { run.node with active := false } = after
      have activated : (after.withCapFactor factor).activated id activations =
        after.activated id activations := rfl
      have pending : (p.withCapFactor factor).pending = p.pending := rfl
      rw [activated, pending, Graph.awaken_withCapFactor]
      rfl
    | faulted | skipped | escaped => rfl

end Propagation

namespace Graph

/-- A stage of a tick under a lower cap is one of the tick under a higher cap. -/
theorem Stage.raise (le : low ≤ high) (stage : (g.withCapFactor low).Stage scene p) :
    (g.withCapFactor high).Stage scene (p.withCapFactor high) := by
  have lower : (g.withCapFactor low).cap ≤ (g.withCapFactor high).cap := by
    have grown := Nat.mul_le_mul_right g.liveNodes le
    simp only [cap, GraphConfig.cap, withCapFactor]
    omega
  induction stage with
  | start => exact .start
  | @next p q id rest before room queue ran ih =>
    -- where the lower cap has room for a run, the higher one has too
    refine .next ih (Nat.lt_of_lt_of_le room lower) queue ?_
    have raised := { p with pending := rest }.execute_withCapFactor scene.keys scene.world id high
    rw [ran] at raised
    exact raised

/-- The runs up to a stage are the first of the tick. -/
theorem Stage.prefix_trace (stage : g.Stage scene p) :
    p.trace.toList <+: (g.trace scene).toList := by
  rw [trace, ← stage.advance_eq (Nat.add_sub_of_le stage.executions_le)]
  exact p.prefix_advance scene.keys scene.world _

/-- A tick under a lower cap makes the first runs of the tick under a higher cap, from stage to
stage with the same nodes and the same entity. If it settles, both ticks come to the same. If it
overflows, the entity and the results at all nodes are what they are in the tick under the higher
cap after as many runs as the lower cap allows. -/
theorem raised_cap (reach : g.Reachable) (idle : g.phase = .idle) (contained : g.Contained)
    (scene : Scene) (le : low ≤ high) :
    ((g.withCapFactor low).trace scene).toList <+: ((g.withCapFactor high).trace scene).toList ∧
    (∀ p, (g.withCapFactor low).Stage scene p →
      (g.withCapFactor high).Stage scene (p.withCapFactor high)) ∧
    ∃ report, ((g.withCapFactor low).tick scene).result = .ok report ∧
      (report.overflowed = false → (g.withCapFactor high).tick scene =
        { (g.withCapFactor low).tick scene with
          graph := ((g.withCapFactor low).tick scene).graph.withCapFactor high }) ∧
      (report.overflowed = true → ∃ p, (g.withCapFactor high).Stage scene p ∧
        p.executions = min (low * g.liveNodes) GraphConfig.maxCap ∧
        p.trace = (g.withCapFactor low).trace scene ∧
        ((g.withCapFactor low).tick scene).entity = p.entity ∧
        ∀ id, ((g.withCapFactor low).tick scene).graph.node? id =
          (p.graph.node? id).map fun node => { node with active := false }) := by
  have whole := reach.integrity.withCapFactor low
  obtain ⟨report, done⟩ := completes_of_contained whole contained idle scene
  obtain ⟨p, last⟩ := lastStage_of_tick whole done
  have raised := last.stage.raise le
  refine ⟨?_, fun p stage => stage.raise le, report, done, fun below => ?_, fun overflowed => ?_⟩
  · rw [last.trace]
    exact raised.prefix_trace
  · have ticked := tick_of_idle (g := g.withCapFactor high) idle scene
    rw [raised.propagate_of_settled (last.settled below)] at ticked
    rw [ticked, last.reply, below]
    rfl
  · obtain ⟨_, spent⟩ := last.capped overflowed
    exact ⟨_, raised, spent, last.trace.symm, last.entity, last.nodes⟩

/-- Twice as many runs are enough. -/
theorem raised_cap_hurried :
    hurried.Reachable ∧ hurried.phase = .idle ∧ hurried.Contained ∧
      ((hurried.withCapFactor 1).tick quiet).result =
        .ok ⟨4, [balked, ⟨⟨2⟩, "Join", .overflow 4⟩], true⟩ ∧
      ((hurried.withCapFactor 2).tick quiet).result = .ok ⟨5, [balked], false⟩ ∧
      ((hurried.withCapFactor 1).trace quiet).toList <+:
        ((hurried.withCapFactor 2).trace quiet).toList ∧
      (∃ p, (hurried.withCapFactor 2).Stage quiet p ∧ p.executions = 4 ∧
        ((hurried.withCapFactor 1).tick quiet).entity = p.entity) ∧
      ((hurried.withCapFactor 3).tick quiet).result = .ok ⟨5, [balked], false⟩ := by
  have halted : ((hurried.withCapFactor 1).tick quiet).result =
    .ok ⟨4, [balked, ⟨⟨2⟩, "Join", .overflow 4⟩], true⟩ := rfl
  have enough : ((hurried.withCapFactor 2).tick quiet).result = .ok ⟨5, [balked], false⟩ := rfl
  obtain ⟨first, _, short, done, _, capped⟩ :=
    raised_cap reachable_hurried rfl contained_hurried quiet (show 1 ≤ 2 by decide)
  obtain rfl := Except.ok.inj (done.symm.trans halted)
  obtain ⟨p, stage, spent, _, entity, _⟩ := capped rfl
  obtain ⟨_, _, report, done, settled, _⟩ :=
    raised_cap reachable_hurried rfl contained_hurried quiet (show 2 ≤ 3 by decide)
  obtain rfl := Except.ok.inj (done.symm.trans enough)
  refine ⟨reachable_hurried, rfl, contained_hurried, halted, enough, first,
    ⟨p, stage, spent, entity⟩, ?_⟩
  rw [settled rfl]
  exact enough

end Graph

end Flowgraph
