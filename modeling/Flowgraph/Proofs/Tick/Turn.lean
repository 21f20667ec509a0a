import Flowgraph.Proofs.Graph.Edits
import Flowgraph.Proofs.Tick.Frame

namespace Flowgraph

namespace Graph

/-- A node that is due. -/
def IsActive (g : Graph) (id : NodeId) : Prop := ∃ node, g.node? id = some node ∧ node.active = true

/-- A node that only a notification makes due. -/
def IsEvent (g : Graph) (id : NodeId) : Prop :=
  ∃ node, g.node? id = some node ∧ node.template.isEvent = true

end Graph

/-- An output that activated in a run is wired to a node. -/
def Execution.Activates (g : Graph) (e : Execution) (id : NodeId) : Prop :=
  ∃ activations edgeId edge, e.outcome = .ran activations ∧ g.edge? edgeId = some edge ∧
    edge.source = e.node ∧ activations[edge.output]? = some true ∧ edge.target = id

/-- The queue has no node twice and holds exactly the nodes that are due. -/
structure Propagation.Queued (p : Propagation) : Prop where
  nodup : p.pending.Nodup
  mem_iff : ∀ id, id ∈ p.pending ↔ p.graph.IsActive id

namespace Graph

variable {g : Graph} {id : NodeId} {node : Node}

theorem awakens_eq_true :
    g.awakens id = true ↔ ∃ node, g.node? id = some node ∧ node.template.isEvent = false ∧
      node.active = false := by
  unfold awakens
  cases g.node? id with
  | none => simp
  | some node => simp

/-- A node that is made due is not awakened again; the others are as before. -/
theorem awakens_setActive (g : Graph) (id other : NodeId) :
    (g.setActive id true).awakens other = true ↔ g.awakens other = true ∧ other ≠ id := by
  simp only [awakens, node?_setActive]
  cases g.node? other with
  | none => simp
  | some node =>
    by_cases same : other = id
    · simp [same]
    · simp [same]

/-- Awakening appends to the queue those of the targets that were not due, each once, and makes
exactly them due. -/
theorem awaken_spec (g : Graph) (pending targets : List NodeId) :
    ∃ woken, (g.awaken pending targets).2 = pending ++ woken ∧ woken.Nodup ∧
      (∀ id, id ∈ woken ↔ id ∈ targets ∧ g.awakens id = true) ∧
      ∀ id, (g.awaken pending targets).1.node? id =
        (g.node? id).map fun node => if id ∈ woken then { node with active := true } else node := by
  induction targets generalizing g pending with
  | nil => exact ⟨[], by simp [awaken], .nil, by simp, by simp [awaken]⟩
  | cons target rest ih =>
    unfold awaken
    by_cases wakes : g.awakens target
    · rw [if_pos wakes]
      obtain ⟨woken, queue, nodup, mem_iff, nodes⟩ := ih (g.setActive target true)
        (pending ++ [target])
      have fresh : target ∉ woken := by
        rw [mem_iff, awakens_setActive]
        exact fun member => member.2.2 rfl
      refine ⟨target :: woken, by simpa using queue, List.nodup_cons.mpr ⟨fresh, nodup⟩, ?_, ?_⟩
      · intro id
        rw [List.mem_cons, List.mem_cons, mem_iff, awakens_setActive]
        by_cases same : id = target
        · simp [same, wakes]
        · simp [same]
      · intro id
        rw [nodes, node?_setActive, Option.map_map]
        congr 1
        funext node
        by_cases same : id = target
        · simp [same, fresh]
        · simp [same]
    · rw [if_neg wakes]
      obtain ⟨woken, queue, nodup, mem_iff, nodes⟩ := ih g pending
      refine ⟨woken, queue, nodup, ?_, nodes⟩
      intro id
      rw [mem_iff, List.mem_cons]
      by_cases same : id = target
      · simp [same, wakes]
      · simp [same]

/-- The ends of the activating edges of an execution, read off the edges. -/
theorem Integrity.mem_activated (whole : g.Integrity) {e : Execution} {activations : List Bool}
    (ran : e.outcome = .ran activations) {target : NodeId} :
    target ∈ g.activated e.node activations ↔ e.Activates g target := by
  simp only [activated, List.mem_map, List.mem_filter, whole.mem_outgoing]
  constructor
  · rintro ⟨edge, ⟨⟨edgeId, live, starts⟩, activating⟩, ends⟩
    refine ⟨activations, edgeId, edge, ran, live, starts, ?_, ends⟩
    cases flag : activations[edge.output]? with
    | none => simp [flag] at activating
    | some activates => simpa [flag] using activating
  · rintro ⟨flags, edgeId, edge, ranFlags, live, starts, activating, ends⟩
    cases ran.symm.trans ranFlags
    exact ⟨edge, ⟨⟨edgeId, live, starts⟩, by simp [activating]⟩, ends⟩

/-- Of the nodes that an execution activates, those are awakened that wait for no notification and
are not due. -/
theorem Integrity.awakens_activated (whole : g.Integrity) {e : Execution} {target : NodeId}
    (activates : e.Activates g target) :
    g.awakens target = true ↔ ¬ g.IsEvent target ∧ ¬ g.IsActive target := by
  obtain ⟨_, edgeId, edge, _, live, _, _, rfl⟩ := activates
  obtain ⟨_, node, _, atTarget, _⟩ := whole.ends edgeId edge live
  simp [awakens_eq_true, IsEvent, IsActive, atTarget]

theorem isEvent_of_skeleton {h : Graph} (same : g.skeleton = h.skeleton) (id : NodeId) :
    g.IsEvent id ↔ h.IsEvent id := by
  constructor
  · rintro ⟨node, live, event⟩
    obtain ⟨twin, atId, _, template⟩ := node?_of_skeleton same live
    exact ⟨twin, atId, template ▸ event⟩
  · rintro ⟨node, live, event⟩
    obtain ⟨twin, atId, _, template⟩ := node?_of_skeleton same.symm live
    exact ⟨twin, atId, template ▸ event⟩

theorem activates_of_program {h : Graph} (same : h.program = g.program) (e : Execution)
    (id : NodeId) : e.Activates h id ↔ e.Activates g id := by
  unfold Execution.Activates
  rw [edge?_of_program same]

/-- Awakening touches nothing of a graph but its nodes. -/
theorem awaken_nodes (g : Graph) (pending targets : List NodeId) :
    ∃ nodes, (g.awaken pending targets).1 = { g with nodes } := by
  induction targets generalizing g pending with
  | nil => exact ⟨g.nodes, rfl⟩
  | cons target rest ih =>
    unfold awaken
    split
    · obtain ⟨nodes, equal⟩ := ih (g.setActive target true) (pending ++ [target])
      obtain ⟨_, same⟩ := g.setActive_nodes target true
      exact ⟨nodes, by rw [equal, same]⟩
    · exact ih g pending

end Graph

namespace Propagation

variable {p q : Propagation} {keys : Keyboard} {world : World}

/-- A run of the node at the head of the queue, as the trace has it. -/
structure Run (keys : Keyboard) (world : World) (p : Propagation) (e : Execution) (node : Node)
    (rest : List NodeId) : Prop where
  head : p.pending = e.node :: rest
  live : p.graph.node? e.node = some node
  active : node.active = true
  inputs : e.inputs = p.graph.resolveInputs e.node
  outcome : e.outcome = (node.run e.inputs ⟨p.entity, keys, world⟩).outcome

/-- All that a turn does: the node at the head of the queue runs and is due no longer, then the
nodes in `woken` become due, which are the ends of activating edges that no notification is needed
for and that were not due. -/
structure Turn (keys : Keyboard) (world : World) (p q : Propagation) (e : Execution)
    (node : Node) (rest woken : List NodeId) : Prop extends Run keys world p e node rest where
  returns : e.outcome ≠ .escaped
  entity : q.entity = (node.run e.inputs ⟨p.entity, keys, world⟩).entity
  trace : q.trace = p.trace.push e
  executions : q.executions = p.executions + 1
  tail : q.pending = rest ++ woken
  nodup : woken.Nodup
  mem_woken : ∀ id, id ∈ woken ↔ e.Activates p.graph id ∧ ¬ p.graph.IsEvent id ∧ id ∉ rest
  nodes : ∀ id, q.graph.node? id =
    (if id = e.node then
        some { (node.run e.inputs ⟨p.entity, keys, world⟩).node with active := false }
      else p.graph.node? id).map fun node =>
        if id ∈ woken then { node with active := true } else node
  others : ∃ nodes, q.graph = { p.graph with nodes }
  program : q.graph.program = p.graph.program

theorem execute_eq {id : NodeId} {node : Node} (live : p.graph.node? id = some node) :
    p.execute keys world id =
      let run := node.run (p.graph.resolveInputs id) ⟨p.entity, keys, world⟩
      let ran : Propagation :=
        { p with
          entity := run.entity
          executions := p.executions + 1
          trace := p.trace.push ⟨id, p.graph.resolveInputs id, run.outcome⟩
          notices := p.notices ++ (run.printed.map Notice.printed).toArray }
      let rested := p.graph.setNode id { run.node with active := false }
      match run.outcome with
      | .ran activations =>
        let awoken := rested.awaken p.pending (rested.activated id activations)
        ({ ran with graph := awoken.1, pending := awoken.2 }, false)
      | .faulted kind => ({ ran with graph := rested }.fault id node.template.name kind, false)
      | .skipped => ({ ran with graph := rested }, false)
      | .escaped => ({ ran with pending := id :: p.pending }, true) := by
  unfold execute
  split
  · rename_i dead
    cases dead.symm.trans live
  · rename_i found
    cases found.symm.trans live
    rfl

/-- After a run its node is due no longer, and those still in the queue are. -/
theorem Queued.rested (queued : p.Queued) {id : NodeId} {rest : List NodeId} {node after : Node}
    (queue : p.pending = id :: rest) (live : p.graph.node? id = some node) (other : NodeId) :
    (p.graph.setNode id { after with active := false }).IsActive other ↔ other ∈ rest := by
  have nodup := queued.nodup
  have due := queued.mem_iff other
  rw [queue] at nodup due
  simp only [Graph.IsActive, Graph.node?_setNode live] at due ⊢
  by_cases same : other = id
  · subst same
    simpa using (List.nodup_cons.mp nodup).1
  · simpa [same] using due.symm

/-- The node at the head of the queue is there and due. -/
theorem Queued.head_due (queued : p.Queued) {id : NodeId} {rest : List NodeId}
    (queue : p.pending = id :: rest) : p.graph.IsActive id := by
  rw [← queued.mem_iff, queue]
  exact List.mem_cons_self

/-- A turn that begins with the invariant and is not cut short is a `Turn`. -/
theorem Queued.turn (queued : p.Queued) (whole : p.graph.Integrity) {id : NodeId}
    {rest : List NodeId} (queue : p.pending = id :: rest)
    (ran : { p with pending := rest }.execute keys world id = (q, false)) :
    ∃ e node woken, Turn keys world p q e node rest woken := by
  obtain ⟨node, live, active⟩ := queued.head_due queue
  have kept := program_execute { p with pending := rest } keys world id
  rw [ran] at kept
  rw [execute_eq (p := { p with pending := rest }) live] at ran
  simp only at ran
  generalize made : node.run (p.graph.resolveInputs id) ⟨p.entity, keys, world⟩ = run at ran
  let e : Execution := ⟨id, p.graph.resolveInputs id, run.outcome⟩
  let rested := p.graph.setNode id { run.node with active := false }
  have head : Run keys world p e node rest :=
    { head := queue, live, active, inputs := rfl, outcome := by rw [made] }
  have nodes (other : NodeId) : rested.node? other =
      if other = id then some { run.node with active := false } else p.graph.node? other :=
    Graph.node?_setNode live
  cases ended : run.outcome with
  | skipped => exact absurd (head.outcome.symm.trans ended) (node.run_ne_skipped _ _ active)
  | escaped => simp [ended] at ran
  | faulted kind =>
    simp only [ended] at ran
    cases ran
    refine ⟨e, node, [], ?_⟩
    refine
      { toRun := head, executions := rfl, tail := (List.append_nil rest).symm, nodup := .nil
        returns := by simp [e, ended]
        entity := by rw [made]; rfl
        trace := by rw [← ended]; rfl
        mem_woken := fun other => by simp [Execution.Activates, e, ended]
        nodes := fun other => ?_
        others := ⟨_, rfl⟩, program := kept }
    rw [made]
    simp only [List.not_mem_nil, if_false, Option.map_id']
    exact nodes other
  | ran activations =>
    simp only [ended] at ran
    obtain ⟨woken, tail, nodup, mem_iff, awoken⟩ :=
      rested.awaken_spec rest (rested.activated id activations)
    obtain ⟨slots, others⟩ := rested.awaken_nodes rest (rested.activated id activations)
    cases ran
    refine ⟨e, node, woken, ?_⟩
    refine
      { toRun := head, executions := rfl, tail, nodup
        returns := by simp [e, ended]
        entity := by rw [made]
        trace := by rw [← ended]
        mem_woken := fun other => ?_
        nodes := fun other => ?_
        others := ⟨slots, others⟩, program := kept }
    · -- a node in `rest` is still due, so it is not awakened once more
      have still : run.node.still = node.still := made ▸ (node.still_run _ _).1
      have program : rested.program = p.graph.program := Graph.strip_setNode live still
      have restedWhole := whole.of_program program
      have events := Graph.isEvent_of_skeleton (Graph.skeleton_eq_of_program program) other
      have waits : rested.IsActive other ↔ other ∈ rest := queued.rested queue live other
      rw [mem_iff, restedWhole.mem_activated (e := e) ended, ← events, ← waits]
      exact and_congr_right restedWhole.awakens_activated
    · rw [made, ← nodes]
      exact awoken other

section

variable {e : Execution} {node : Node} {rest woken : List NodeId}

/-- A node that is woken is there. -/
theorem Turn.live_of_mem_woken (turn : Turn keys world p q e node rest woken)
    (whole : p.graph.Integrity) {id : NodeId} (member : id ∈ woken) : p.graph.Live id := by
  obtain ⟨⟨_, edgeId, edge, _, atId, _, _, rfl⟩, _⟩ := (turn.mem_woken id).mp member
  obtain ⟨_, target, _, atTarget, _⟩ := whole.ends edgeId edge atId
  exact ⟨target, atTarget⟩

theorem Turn.queued (turn : Turn keys world p q e node rest woken) (queued : p.Queued)
    (whole : p.graph.Integrity) : q.Queued := by
  have nodup := queued.nodup
  rw [turn.head] at nodup
  obtain ⟨headFresh, restNodup⟩ := List.nodup_cons.mp nodup
  constructor
  · rw [turn.tail, List.nodup_append]
    refine ⟨restNodup, turn.nodup, fun a inRest b inWoken same => ?_⟩
    subst same
    exact ((turn.mem_woken a).mp inWoken).2.2 inRest
  · intro id
    have read := turn.nodes id
    rw [turn.tail, List.mem_append, Graph.IsActive, read]
    by_cases awoken : id ∈ woken
    · simp only [awoken, or_true, if_true, true_iff]
      obtain ⟨target, atTarget⟩ := turn.live_of_mem_woken whole awoken
      by_cases same : id = e.node
      · rw [if_pos same]
        exact ⟨_, rfl, rfl⟩
      · rw [if_neg same, atTarget]
        exact ⟨_, rfl, rfl⟩
    · simp only [awoken, or_false, if_false, Option.map_id']
      by_cases same : id = e.node
      · subst same
        simpa using headFresh
      · have due := queued.mem_iff id
        rw [turn.head, List.mem_cons] at due
        rw [if_neg same]
        exact (or_iff_right same).symm.trans due

end

/-- A turn that is cut short: its node does not return from its run, and the graph stays as it was
before, so that the node is still due. -/
structure CutShort (keys : Keyboard) (world : World) (p q : Propagation) (e : Execution)
    (node : Node) (rest : List NodeId) : Prop extends Run keys world p e node rest where
  escaped : e.outcome = .escaped
  trace : q.trace = p.trace.push e
  executions : q.executions = p.executions + 1
  graph : q.graph = p.graph

theorem Queued.cutShort (queued : p.Queued) {id : NodeId} {rest : List NodeId}
    (queue : p.pending = id :: rest)
    (ran : { p with pending := rest }.execute keys world id = (q, true)) :
    ∃ e node, CutShort keys world p q e node rest := by
  obtain ⟨node, live, active⟩ := queued.head_due queue
  rw [execute_eq (p := { p with pending := rest }) live] at ran
  simp only at ran
  split at ran
  · cases ran
  · cases ran
  · cases ran
  · rename_i ended
    rw [ended] at ran
    cases ran
    exact ⟨⟨id, p.graph.resolveInputs id, .escaped⟩, node,
      { head := queue, live, active, inputs := rfl, outcome := ended.symm, escaped := rfl
        trace := rfl, executions := rfl, graph := rfl }⟩

end Propagation

end Flowgraph
