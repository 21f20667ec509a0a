import Flowgraph.Proofs.Tick.Stage

namespace Flowgraph

open Propagation (Run)

namespace Graph

theorem node?_drain (g : Graph) (ids : List NodeId) (id : NodeId) :
    (ids.foldl (fun g id => g.setActive id false) g).node? id =
      (g.node? id).map fun node => if id ∈ ids then { node with active := false } else node := by
  induction ids generalizing g with
  | nil => simp
  | cons first rest ih =>
    rw [List.foldl_cons, ih, node?_setActive, Option.map_map]
    congr 1
    funext node
    by_cases later : id ∈ rest
    · by_cases here : id = first <;> simp [later, here]
    · by_cases here : id = first <;> simp [later, here]

theorem drain_nodes (g : Graph) (ids : List NodeId) :
    ∃ nodes, ids.foldl (fun g id => g.setActive id false) g = { g with nodes } := by
  induction ids generalizing g with
  | nil => exact ⟨g.nodes, rfl⟩
  | cons first rest ih =>
    obtain ⟨nodes, equal⟩ := ih (g.setActive first false)
    obtain ⟨_, same⟩ := g.setActive_nodes first false
    exact ⟨nodes, by rw [List.foldl_cons, equal, same]⟩

end Graph

namespace Propagation

variable {p : Propagation}

/-- At the cap the nodes in the queue are no longer due, and nothing else changes. -/
theorem graph_abandon (p : Propagation) (cap : Nat) :
    (p.abandon cap).graph = p.pending.foldl (fun g id => g.setActive id false) p.graph := by
  unfold abandon
  split
  · rename_i queue
    simp only [queue]
  · rename_i id rest queue
    split <;> simp only [fault, queue]

theorem executions_abandon (p : Propagation) (cap : Nat) :
    (p.abandon cap).executions = p.executions := by
  unfold abandon
  split
  · rfl
  · split <;> rfl

theorem entity_abandon (p : Propagation) (cap : Nat) : (p.abandon cap).entity = p.entity := by
  unfold abandon
  split
  · rfl
  · split <;> rfl

/-- What is still in the queue at the cap is due no longer, and nothing else was due. -/
theorem Queued.abandon (queued : p.Queued) (cap : Nat) (id : NodeId) :
    ¬ (p.abandon cap).graph.IsActive id := by
  rintro ⟨node, live, active⟩
  rw [graph_abandon, Graph.node?_drain] at live
  obtain ⟨before, atId, rfl⟩ := Option.map_eq_some_iff.mp live
  by_cases member : id ∈ p.pending
  · simp [member] at active
  · rw [if_neg member] at active
    exact member ((queued.mem_iff id).mpr ⟨before, atId, active⟩)

end Propagation

namespace Graph

variable {g : Graph} {scene : Scene}

/-- How a tick that was let run ends, read off how its loop stopped. -/
theorem tick_of_idle (idle : g.phase = .idle) (scene : Scene) :
    g.tick scene =
      match g.propagate scene with
      | (p, .settled) => p.finish false
      | (p, .capped) => (p.abandon g.cap).finish true
      | (p, .escaped) =>
        { result := .error .escaped, graph := p.graph, entity := p.entity,
          notices := p.notices.toList } := by
  have idle : g.isIdle = true := by simp [isIdle, idle]
  exact if_pos idle

/-- A tick that completes below its cap stops at a stage at which nothing is due. -/
theorem settled_of_tick (idle : g.phase = .idle) {scene : Scene} {report : TickReport}
    (done : (g.tick scene).result = .ok report) (below : report.overflowed = false) :
    ∃ p, g.Stage scene p ∧ p.pending = [] ∧ g.trace scene = p.trace ∧
      g.tick scene = p.finish false := by
  have ticked := tick_of_idle idle scene
  have ends := g.propagate_ends scene
  unfold trace
  generalize g.propagate scene = result at ticked ends ⊢
  cases ends with
  | @settled p stage empty => exact ⟨p, stage, empty, rfl, ticked⟩
  | capped =>
    rw [ticked] at done
    cases done
    cases below
  | escaped =>
    rw [ticked] at done
    cases done

/-- A completed tick has left nothing due, has made the graph idle again and is counted. -/
structure Completed (g h : Graph) : Prop where
  nothing_due : ∀ id, ¬ h.IsActive id
  phase : h.phase = .idle
  ticks : h.ticks = g.ticks + 1

theorem completed_settled {p : Propagation} (running : g.Running p) (empty : p.pending = []) :
    g.Completed (p.finish false).graph := by
  refine ⟨fun id due => ?_, rfl, congrArg (· + 1) running.ticks⟩
  have member : id ∈ p.pending := (running.queued.mem_iff id).mpr due
  simp [empty] at member

theorem completed_capped {p : Propagation} (running : g.Running p) (cap : Nat) :
    g.Completed ((p.abandon cap).finish true).graph := by
  refine ⟨fun id due => running.queued.abandon cap id due, rfl, ?_⟩
  obtain ⟨nodes, others⟩ := drain_nodes p.graph p.pending
  have ticks : (p.abandon cap).graph.ticks = p.graph.ticks := by
    rw [Propagation.graph_abandon, others]
  exact congrArg (· + 1) (ticks.trans running.ticks)

/-- The queue of a tick is at every stage the list, without repetition, of the nodes that are due.
Every run is of the node at the head, which is there and due, so no run is skipped and every
execution has its run. A completed tick leaves nothing due, has made the graph idle and is counted;
one that was cut short has left due its last node and those behind it, and is not counted. -/
theorem worklist_exact (reach : g.Reachable) (idle : g.phase = .idle) (scene : Scene) :
    (∀ p, g.Stage scene p →
      p.pending.Nodup ∧ ∀ id, id ∈ p.pending ↔ p.graph.IsActive id) ∧
    (∀ (i : Nat) e, (g.trace scene)[i]? = some e →
      e.outcome ≠ .skipped ∧ ∃ p node rest,
        g.Stage scene p ∧ p.trace.size = i ∧ Run scene.keys scene.world p e node rest) ∧
    (g.trace scene).size = (g.propagate scene).1.executions ∧
    (∀ report, (g.tick scene).result = .ok report →
      report.executions = (g.propagate scene).1.executions ∧ g.Completed (g.tick scene).graph) ∧
    (∀ failure, (g.tick scene).result = .error failure →
      failure = .escaped ∧ ∃ p e node rest,
        g.Stage scene p ∧ Run scene.keys scene.world p e node rest ∧ e.outcome = .escaped ∧
        g.trace scene = p.trace.push e ∧
        (∀ id, (g.tick scene).graph.IsActive id ↔ id = e.node ∨ id ∈ rest) ∧
        (g.tick scene).graph.phase = .propagating ∧ (g.tick scene).graph.ticks = g.ticks) := by
  have whole := reach.integrity
  refine ⟨fun p stage => ?_, fun i e entry => ?_, size_trace whole, ?_⟩
  · exact ⟨(stage.running whole).queued.nodup, (stage.running whole).queued.mem_iff⟩
  · obtain ⟨p, node, rest, stage, size, run⟩ := run_of_trace whole entry
    exact ⟨run.outcome ▸ node.run_ne_skipped _ _ run.active, p, node, rest, stage, size, run⟩
  have ticked := tick_of_idle idle scene
  have ends := g.propagate_ends scene
  unfold trace
  generalize g.propagate scene = result at ticked ends ⊢
  cases ends with
  | @settled p stage empty =>
    simp only at ticked
    rw [ticked]
    refine ⟨fun report done => ?_, fun failure failed => by cases failed⟩
    cases done
    exact ⟨rfl, completed_settled (stage.running whole) empty⟩
  | @capped p stage _ _ =>
    simp only at ticked
    rw [ticked]
    refine ⟨fun report done => ?_, fun failure failed => by cases failed⟩
    cases done
    exact ⟨p.executions_abandon g.cap, completed_capped (stage.running whole) g.cap⟩
  | @escaped p q id rest stage queue ran =>
    have running := stage.running whole
    obtain ⟨e, node, cut⟩ := running.queued.cutShort queue ran
    simp only at ticked
    rw [ticked]
    refine ⟨fun report done => (by cases done), fun failure failed => ?_⟩
    cases failed
    refine ⟨rfl, p, e, node, rest, stage, cut.toRun, cut.escaped, cut.trace, ?_⟩
    simp only [cut.graph]
    refine ⟨fun other => ?_, running.phase, running.ticks⟩
    rw [← running.queued.mem_iff, cut.head, List.mem_cons]

theorem worklist_exact_detour :
    detour.Reachable ∧ detour.phase = .idle ∧ (detour.tick quiet).result = .ok ⟨4, [], false⟩ ∧
      (Propagation.start detour quiet.entity).pending = [⟨1⟩] ∧
      (Propagation.start detour quiet.entity).graph.IsActive ⟨1⟩ ∧
      (detour.trace quiet).size = 4 ∧ ∀ id, ¬ (detour.tick quiet).graph.IsActive id := by
  obtain ⟨queue, _, size, completed, _⟩ := worklist_exact reachable_detour rfl quiet
  have due := ((queue _ .start).2 ⟨1⟩).mp List.mem_cons_self
  obtain ⟨count, done⟩ := completed ⟨4, [], false⟩ rfl
  exact ⟨reachable_detour, rfl, rfl, rfl, due, size.trans count.symm, done.nothing_due⟩

end Graph

end Flowgraph
