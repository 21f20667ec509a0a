import Flowgraph.Proofs.Tick.Stage
import Flowgraph.Proofs.Twin.Calls

namespace Flowgraph

variable {r : Renaming} {keys : Keyboard} {world : World}

namespace Graph

variable {g h : Graph}

theorem Twin.setActive (twin : Twin r g h) (id : NodeId) (active : Bool) :
    Twin r (g.setActive id active) (h.setActive (r.node id) active) := by
  cases live : g.node? id with
  | none =>
    rw [setActive_none live, setActive_none (twin.dead live)]
    exact twin
  | some node =>
    rw [setActive_eq live, setActive_eq (twin.live live)]
    exact twin.setNode live rfl

/-- Targets that are made due join the queue in the same order. -/
theorem Twin.awaken (twin : Twin r g h) (pending targets : List NodeId) :
    Twin r (g.awaken pending targets).1
        (h.awaken (pending.map r.node) (targets.map r.node)).1 ∧
      (h.awaken (pending.map r.node) (targets.map r.node)).2 =
        (g.awaken pending targets).2.map r.node := by
  induction targets generalizing g h pending with
  | nil => exact ⟨twin, rfl⟩
  | cons target rest ih =>
    rw [List.map_cons, Graph.awaken, Graph.awaken, twin.awakens]
    split
    · have joined := ih (twin.setActive target true) (pending ++ [target])
      rwa [List.map_append] at joined
    · exact ih twin pending

end Graph

namespace Propagation

variable {p q : Propagation}

/-- Propagations over twins that have come equally far. -/
structure Twin (r : Renaming) (p q : Propagation) : Prop where
  graph : p.graph.Twin r q.graph
  entity : q.entity = p.entity
  pending : q.pending = p.pending.map r.node
  executions : q.executions = p.executions
  trace : q.trace = p.trace.map r.execution
  faults : q.faults = p.faults.map r.fault
  notices : q.notices = p.notices

theorem Twin.pending_nil (twin : Twin r p q) (queue : p.pending = []) : q.pending = [] := by
  rw [twin.pending, queue, List.map_nil]

/-- The same node stands at the head of both queues. -/
theorem Twin.pending_cons (twin : Twin r p q) {id : NodeId} {rest : List NodeId}
    (queue : p.pending = id :: rest) : q.pending = r.node id :: rest.map r.node := by
  rw [twin.pending, queue, List.map_cons]

theorem Twin.fault (twin : Twin r p q) (id : NodeId) (template : String) (kind : FaultKind) :
    Twin r (p.fault id template kind) (q.fault (r.node id) template kind) := by
  refine ⟨twin.graph, twin.entity, twin.pending, twin.executions, twin.trace, ?_, ?_⟩
  · simp only [Propagation.fault, twin.faults, Array.map_push]
    rfl
  · simp only [Propagation.fault, twin.notices]

/-- The same node runs in both, with the same outcome. -/
theorem Twin.execute (twin : Twin r p q) (keys : Keyboard) (world : World) (id : NodeId) :
    Twin r (p.execute keys world id).1 (q.execute keys world (r.node id)).1 ∧
      (q.execute keys world (r.node id)).2 = (p.execute keys world id).2 := by
  cases live : p.graph.node? id with
  | none =>
    unfold Propagation.execute
    simp only [live, twin.graph.dead live, and_true]
    exact { twin with executions := congrArg (· + 1) twin.executions }
  | some node =>
    have ranAlike := Node.renumber_run r.node (twin.graph.blind id node live)
      (p.graph.resolveInputs id) ⟨p.entity, keys, world⟩
    have still := (node.still_run (p.graph.resolveInputs id) ⟨p.entity, keys, world⟩).1
    rw [execute_eq live, execute_eq (twin.graph.live live), twin.graph.resolveInputs, twin.entity,
      ranAlike]
    generalize node.run (p.graph.resolveInputs id) ⟨p.entity, keys, world⟩ = run at still
    have rested : (p.graph.setNode id { run.node with active := false }).Twin r
        (q.graph.setNode (r.node id) { (run.renumber r.node).node with active := false }) :=
      twin.graph.setNode live (congrArg (fun node : Node => { node with internals := [] }) still)
    -- what every outcome has in common: the entity, the count, the record and the notices
    have ran : Twin r
        { p with
          entity := run.entity
          executions := p.executions + 1
          trace := p.trace.push ⟨id, p.graph.resolveInputs id, run.outcome⟩
          notices := p.notices ++ (run.printed.map Notice.printed).toArray }
        { q with
          entity := (run.renumber r.node).entity
          executions := q.executions + 1
          trace := q.trace.push
            ⟨r.node id, p.graph.resolveInputs id, (run.renumber r.node).outcome⟩
          notices := q.notices ++ ((run.renumber r.node).printed.map Notice.printed).toArray } := by
      refine ⟨twin.graph, rfl, twin.pending, congrArg (· + 1) twin.executions, ?_, twin.faults, ?_⟩
      · simp only [twin.trace, Array.map_push]
        rfl
      · simp only [twin.notices]
        rfl
    have outcome : (run.renumber r.node).outcome = run.outcome := rfl
    simp only [outcome] at ran ⊢
    generalize run.outcome = ending at ran ⊢
    cases ending with
    | ran activations =>
      have awoken := rested.awaken p.pending
        ((p.graph.setNode id { run.node with active := false }).activated id activations)
      rw [← rested.activated, ← twin.pending] at awoken
      exact ⟨{ ran with graph := awoken.1, pending := awoken.2 }, rfl⟩
    | faulted kind =>
      refine ⟨?_, rfl⟩
      apply Twin.fault
      exact { ran with graph := rested }
    | skipped => exact ⟨{ ran with graph := rested }, rfl⟩
    | escaped =>
      refine ⟨{ ran with pending := ?_ }, rfl⟩
      rw [twin.pending, List.map_cons]

/-- Runs from twin queues up to any budget. -/
theorem Twin.advance (twin : Twin r p q) (budget : Nat) :
    Twin r (p.advance keys world budget).1 (q.advance keys world budget).1 ∧
      (q.advance keys world budget).2 = (p.advance keys world budget).2 := by
  induction budget generalizing p q with
  | zero =>
    cases queue : p.pending with
    | nil =>
      rw [advance_nil queue, advance_nil (twin.pending_nil queue)]
      exact ⟨twin, rfl⟩
    | cons id rest =>
      rw [advance_zero queue, advance_zero (twin.pending_cons queue)]
      exact ⟨twin, rfl⟩
  | succ budget ih =>
    cases queue : p.pending with
    | nil =>
      rw [advance_nil queue, advance_nil (twin.pending_nil queue)]
      exact ⟨twin, rfl⟩
    | cons id rest =>
      have popped : Twin r { p with pending := rest } { q with pending := rest.map r.node } :=
        { twin with pending := rfl }
      obtain ⟨ran, escaped⟩ := popped.execute keys world id
      rw [advance_succ queue, advance_succ (twin.pending_cons queue)]
      simp only [escaped]
      split
      · exact ⟨ran, rfl⟩
      · exact ih ran

theorem Twin.abandon (twin : Twin r p q) (cap : Nat) :
    Twin r (p.abandon cap) (q.abandon cap) := by
  have drained {g h : Graph} (twin : g.Twin r h) (ids : List NodeId) :
      (ids.foldl (fun g id => g.setActive id false) g).Twin r
        ((ids.map r.node).foldl (fun g id => g.setActive id false) h) := by
    induction ids generalizing g h with
    | nil => exact twin
    | cons id rest ih => exact ih (twin.setActive id false)
  have emptied {p q : Propagation} (twin : Twin r p q) :
      Twin r
        { p with
          graph := p.pending.foldl (fun g id => g.setActive id false) p.graph
          pending := [] }
        { q with
          graph := q.pending.foldl (fun g id => g.setActive id false) q.graph
          pending := [] } := by
    have graph := drained twin.graph p.pending
    rw [← twin.pending] at graph
    exact { twin with graph := graph, pending := rfl }
  unfold Propagation.abandon
  cases queue : p.pending with
  | nil =>
    have left := emptied twin
    simp only [queue, twin.pending_nil queue] at left ⊢
    exact left
  | cons id rest =>
    simp only [twin.pending_cons queue, twin.graph.node]
    cases p.graph.node? id with
    | none => exact emptied twin
    | some node => exact emptied (twin.fault id node.template.name (.overflow cap))

end Propagation

namespace Graph

variable {g h : Graph}

/-- The runs of a tick, none if it is refused. -/
def runs (g : Graph) (scene : Scene) : List Execution :=
  if g.isIdle then (g.trace scene).toList else []

/-- Replies to a tick that say the same and leave twins. -/
structure TickAgree (r : Renaming) (a b : TickReply) : Prop where
  result : b.result = (a.result.map r.report).mapError r.failure
  graph : a.graph.Twin r b.graph
  entity : b.entity = a.entity
  notices : b.notices = a.notices

theorem Twin.finish {p q : Propagation} (twin : p.Twin r q) (overflowed : Bool) :
    TickAgree r (p.finish overflowed) (q.finish overflowed) := by
  have ticks : q.graph.ticks + 1 = p.graph.ticks + 1 := congrArg (· + 1) twin.graph.ticks
  refine ⟨?_, twin.graph.change rfl rfl twin.graph.node rfl ticks, twin.entity,
    congrArg Array.toList twin.notices⟩
  simp only [Propagation.finish, Except.map, Except.mapError, Renaming.report, twin.executions,
    twin.faults, Array.toList_map]

theorem Twin.start (twin : Twin r g h) (entity : Entity) :
    (Propagation.start g entity).Twin r (Propagation.start h entity) := by
  have noRuns : (#[] : Array Execution) = Array.map r.execution #[] := by simp
  have noFaults : (#[] : Array NodeFault) = Array.map r.fault #[] := by simp
  refine ⟨twin.change rfl rfl twin.node rfl twin.ticks, rfl, ?_, rfl, noRuns, noFaults, rfl⟩
  simp only [Propagation.start, twin.nodeList, List.filter_map, List.map_map]
  rfl

theorem Twin.cap (twin : Twin r g h) : h.cap = g.cap := by
  unfold Graph.cap
  rw [twin.config, twin.liveNodes]

/-- From step to step twins go through the same runs and end in the same way. -/
theorem Twin.propagate (twin : Twin r g h) (scene : Scene) :
    (g.propagate scene).1.Twin r (h.propagate scene).1 ∧
      (h.propagate scene).2 = (g.propagate scene).2 := by
  unfold Graph.propagate
  rw [twin.cap]
  exact (twin.start scene.entity).advance g.cap

theorem Twin.runs (twin : Twin r g h) (scene : Scene) :
    h.runs scene = (g.runs scene).map r.execution := by
  unfold Graph.runs trace
  rw [twin.isIdle, (twin.propagate scene).1.trace, Array.toList_map]
  split <;> rfl

/-- Ticks of twins report the same and leave twins. -/
theorem Twin.tick (twin : Twin r g h) (scene : Scene) :
    TickAgree r (g.tick scene) (h.tick scene) := by
  obtain ⟨ran, ending⟩ := twin.propagate scene
  unfold Graph.tick
  rw [twin.isIdle, twin.cap]
  split
  · generalize g.propagate scene = left at ran ending
    generalize h.propagate scene = right at ran ending
    obtain ⟨p, stopped⟩ := left
    obtain ⟨q, stop⟩ := right
    simp only at ran ending
    subst ending
    cases stop with
    | settled => exact Twin.finish ran false
    | capped => exact Twin.finish (ran.abandon g.cap) true
    | escaped => exact ⟨rfl, ran.graph, ran.entity, congrArg Array.toList ran.notices⟩
  · exact ⟨rfl, twin, rfl, rfl⟩

theorem Twin.step (twin : Twin r g h) (scene : Scene) :
    TickAgree r (g.step scene) (h.step scene) := by
  have told : Agree r (g.notifyTick scene.world.delta) (h.notifyTick scene.world.delta) :=
    twin.notifyWhere (·.name == Builtin.onTick) [.float scene.world.delta]
  unfold Graph.step
  simp only [told.result]
  cases (g.notifyTick scene.world.delta).result with
  | error e => exact ⟨rfl, told.graph, rfl, told.notices⟩
  | ok count =>
    have ticked := told.graph.tick scene
    refine ⟨ticked.result, ticked.graph, ticked.entity, ?_⟩
    simp only [Except.mapError, told.notices, ticked.notices]

end Graph

end Flowgraph
