import Flowgraph.Proofs.Graph.Inputs
import Flowgraph.Proofs.Tick.Worklist

namespace Flowgraph

/-- No evaluation of a template changes the entity. -/
def Template.Inert (t : Template) : Prop :=
  ∀ evaluator, t.evaluator = some evaluator → ∀ inputs (context : EvaluationContext),
    (context.entity.performAll (evaluator inputs context).commands).1 = context.entity

/-- No evaluation of a template keeps anything for later ones: the evaluator is a function of its
inputs and its context, for all that any other evaluation can tell. -/
def Template.Forgetful (t : Template) : Prop :=
  ∀ evaluator, t.evaluator = some evaluator → ∀ inputs (context : EvaluationContext),
    (evaluator inputs context).memory.getD context.entity.memory = context.entity.memory

/-- A run disturbs nothing outside its graph if its evaluation neither changes the entity nor keeps
anything. -/
theorem Node.entity_run_of_inert {node : Node} (inert : node.template.Inert)
    (forgetful : node.template.Forgetful) (inputs : List Value) (scene : Scene) :
    (node.run inputs scene).entity = scene.entity := by
  rw [entity_run]
  cases evaluated : node.evaluation? inputs scene with
  | none => rfl
  | some evaluation =>
    obtain ⟨_, evaluator, found, rfl⟩ := evaluation?_eq_some evaluated
    have unmoved := inert evaluator found inputs (node.context scene)
    have unkept := forgetful evaluator found inputs (node.context scene)
    change (evaluator inputs (node.context scene)).effect (node.context scene).entity =
      (node.context scene).entity
    rw [Evaluation.effect, unmoved, unkept]

variable {part : NodeId → Bool}

namespace Graph

variable {g h : Graph} {id : NodeId}

/-- A graph no edge of which leads into the part or out of it, and whose nodes outside the part
neither change the entity nor keep anything. -/
structure Severed (part : NodeId → Bool) (g : Graph) : Prop where
  whole : g.Integrity
  closed : ∀ id edge, g.edge? id = some edge → part edge.source = part edge.target
  inert : ∀ id node, g.node? id = some node → part id = false → node.template.Inert
  forgetful : ∀ id node, g.node? id = some node → part id = false → node.template.Forgetful

/-- Graphs of one program with the same nodes in the part. -/
structure AgreeOn (part : NodeId → Bool) (g h : Graph) : Prop where
  program : h.program = g.program
  nodes : ∀ id, part id = true → h.node? id = g.node? id

theorem Severed.of_program (severed : g.Severed part) (same : h.program = g.program) :
    h.Severed part := by
  have template {id : NodeId} {node : Node} (live : h.node? id = some node) :
      ∃ twin, g.node? id = some twin ∧ twin.template = node.template := by
    obtain ⟨twin, atId, _, template⟩ := node?_of_skeleton (skeleton_eq_of_program same) live
    exact ⟨twin, atId, template⟩
  refine ⟨severed.whole.of_program same, ?_, fun id node live outside => ?_,
    fun id node live outside => ?_⟩
  · rw [edge?_of_program same]
    exact severed.closed
  · obtain ⟨twin, atId, template⟩ := template live
    exact template ▸ severed.inert id twin atId outside
  · obtain ⟨twin, atId, template⟩ := template live
    exact template ▸ severed.forgetful id twin atId outside

/-- What a run activates is on its side. -/
theorem Severed.part_activated (severed : g.Severed part) {activations : List Bool}
    {target : NodeId} (member : target ∈ g.activated id activations) : part target = part id := by
  obtain ⟨edge, listed, rfl⟩ := List.mem_map.mp member
  obtain ⟨edgeId, live, rfl⟩ := severed.whole.mem_outgoing.mp (List.mem_filter.mp listed).1
  exact (severed.closed edgeId edge live).symm

/-- Wires into the part come from the part, so its nodes read the same inputs in both graphs. -/
theorem AgreeOn.resolveInputs (agree : AgreeOn part g h) (severed : g.Severed part)
    (inside : part id = true) : h.resolveInputs id = g.resolveInputs id := by
  apply List.ext_getElem?
  intro input
  apply severed.whole.resolveInputs_congr agree.program
  intro edgeId edge live ends _
  have sourceInside : part edge.source = true := by
    rw [severed.closed edgeId edge live, ends, inside]
  simp only [storedAt, agree.nodes edge.source sourceInside]

theorem AgreeOn.setNode (agree : AgreeOn part g h) {old new : Node} (inside : part id = true)
    (live : g.node? id = some old) (still : new.still = old.still) :
    AgreeOn part (g.setNode id new) (h.setNode id new) := by
  have twin : h.node? id = some old := (agree.nodes id inside).trans live
  refine ⟨?_, fun other member => ?_⟩
  · exact (strip_setNode twin still).trans (agree.program.trans (strip_setNode live still).symm)
  · rw [node?_setNode twin, node?_setNode live, agree.nodes other member]

theorem AgreeOn.setActive (agree : AgreeOn part g h) (id : NodeId) (active : Bool) :
    AgreeOn part (g.setActive id active) (h.setActive id active) := by
  refine ⟨?_, fun other member => ?_⟩
  · rw [program_setActive, program_setActive, agree.program]
  · rw [node?_setActive, node?_setActive, agree.nodes other member]

/-- Targets in the part are awakened in both, and so they join both queues. -/
theorem AgreeOn.awaken (agree : AgreeOn part g h) (pending : List NodeId) {targets : List NodeId}
    (inside : ∀ target ∈ targets, part target = true) :
    AgreeOn part (g.awaken pending targets).1 (h.awaken (pending.filter part) targets).1 ∧
      (h.awaken (pending.filter part) targets).2 = (g.awaken pending targets).2.filter part := by
  induction targets generalizing g h pending with
  | nil => exact ⟨agree, rfl⟩
  | cons target rest ih =>
    have here : part target = true := inside target List.mem_cons_self
    have later (other : NodeId) (member : other ∈ rest) : part other = true :=
      inside other (List.mem_cons_of_mem target member)
    have alike : h.awakens target = g.awakens target := by
      simp only [awakens, agree.nodes target here]
    rw [Graph.awaken, Graph.awaken, alike]
    split
    · have joined := ih (agree.setActive target true) (pending ++ [target]) later
      simpa only [List.filter_append, List.filter_cons_of_pos here, List.filter_nil] using joined
    · exact ih agree pending later

theorem AgreeOn.setNode_left (agree : AgreeOn part g h) {old new : Node} (outside : part id = false)
    (live : g.node? id = some old) (still : new.still = old.still) :
    AgreeOn part (g.setNode id new) h := by
  refine ⟨agree.program.trans (strip_setNode live still).symm, fun other member => ?_⟩
  have elsewhere : other ≠ id := by
    rintro rfl
    simp [outside] at member
  rw [node?_setNode live, if_neg elsewhere, agree.nodes other member]

/-- Targets outside the part neither change a node of it nor join the queue among its nodes. -/
theorem AgreeOn.awaken_left (agree : AgreeOn part g h) (pending : List NodeId)
    {targets : List NodeId} (outside : ∀ target ∈ targets, part target = false) :
    AgreeOn part (g.awaken pending targets).1 h ∧
      (g.awaken pending targets).2.filter part = pending.filter part := by
  obtain ⟨woken, queue, _, mem_woken, nodes⟩ := g.awaken_spec pending targets
  have apart (other : NodeId) (member : other ∈ woken) : part other = false :=
    outside other ((mem_woken other).mp member).1
  refine ⟨⟨agree.program.trans (g.program_awaken pending targets).symm, fun other member => ?_⟩, ?_⟩
  · have asleep : other ∉ woken := fun awoken => by simp [apart other awoken] at member
    rw [nodes, agree.nodes other member]
    simp only [asleep, if_false, Option.map_id']
  · have none : woken.filter part = [] :=
      List.filter_eq_nil_iff.mpr fun other member => by simp [apart other member]
    rw [queue, List.filter_append, none, List.append_nil]

end Graph

namespace Propagation

variable {p q : Propagation} {id : NodeId}

/-- The second propagation is what the first looks like from the part. -/
structure Apart (part : NodeId → Bool) (p q : Propagation) : Prop where
  graph : p.graph.AgreeOn part q.graph
  entity : q.entity = p.entity
  pending : q.pending = p.pending.filter part
  trace : q.trace.toList = p.trace.toList.filter (part ·.node)
  faults : q.faults.toList = p.faults.toList.filter (part ·.node)

/-- A node of the part runs in both, with the same outcome. -/
theorem Apart.turn_inside (apart : Apart part p q) (severed : p.graph.Severed part)
    (keys : Keyboard) (world : World) (inside : part id = true) :
    Apart part (p.execute keys world id).1 (q.execute keys world id).1 ∧
      (q.execute keys world id).2 = (p.execute keys world id).2 := by
  cases live : p.graph.node? id with
  | none =>
    have dead : q.graph.node? id = none := (apart.graph.nodes id inside).trans live
    unfold execute
    simp only [live, dead, and_true]
    exact ⟨apart.graph, apart.entity, apart.pending, apart.trace, apart.faults⟩
  | some node =>
    have twin : q.graph.node? id = some node := (apart.graph.nodes id inside).trans live
    have trace (e : Execution) (own : e.node = id) :
        (q.trace.push e).toList = (p.trace.push e).toList.filter (part ·.node) := by
      simp [apart.trace, List.filter_append, own, inside]
    have still := (node.still_run (p.graph.resolveInputs id) ⟨p.entity, keys, world⟩).1
    rw [execute_eq live, execute_eq twin, apart.graph.resolveInputs severed inside, apart.entity]
    generalize node.run (p.graph.resolveInputs id) ⟨p.entity, keys, world⟩ = run at still
    have rested : Graph.AgreeOn part (p.graph.setNode id { run.node with active := false })
        (q.graph.setNode id { run.node with active := false }) :=
      apart.graph.setNode inside live still
    have severedRested : (p.graph.setNode id { run.node with active := false }).Severed part :=
      severed.of_program (Graph.strip_setNode live still)
    simp only
    generalize p.graph.setNode id { run.node with active := false } = pRested at *
    generalize q.graph.setNode id { run.node with active := false } = qRested at *
    cases run.outcome with
    | ran activations =>
      have targets (target : NodeId) (member : target ∈ pRested.activated id activations) :
          part target = true := (severedRested.part_activated member).trans inside
      have alike : qRested.activated id activations = pRested.activated id activations := by
        simp only [Graph.activated, Graph.outgoing_of_program rested.program]
      obtain ⟨graph, pending⟩ := rested.awaken p.pending targets
      simp only [alike, apart.pending, and_true]
      exact ⟨graph, rfl, pending, trace _ rfl, apart.faults⟩
    | faulted kind =>
      refine ⟨⟨rested, rfl, apart.pending, trace _ rfl, ?_⟩, rfl⟩
      simp [fault, apart.faults, List.filter_append, inside]
    | skipped => exact ⟨⟨rested, rfl, apart.pending, trace _ rfl, apart.faults⟩, rfl⟩
    | escaped =>
      refine ⟨⟨apart.graph, rfl, ?_, trace _ rfl, apart.faults⟩, rfl⟩
      simp only [apart.pending, List.filter_cons_of_pos inside]

/-- A node outside the part runs in the first alone, and the part does not notice. -/
theorem Apart.turn_outside (apart : Apart part p q) (severed : p.graph.Severed part)
    (keys : Keyboard) (world : World) (outside : part id = false) :
    Apart part (p.execute keys world id).1 q := by
  cases live : p.graph.node? id with
  | none =>
    unfold execute
    simp only [live]
    exact ⟨apart.graph, apart.entity, apart.pending, apart.trace, apart.faults⟩
  | some node =>
    have trace (e : Execution) (own : e.node = id) :
        q.trace.toList = (p.trace.push e).toList.filter (part ·.node) := by
      simp [apart.trace, List.filter_append, own, outside]
    have still := (node.still_run (p.graph.resolveInputs id) ⟨p.entity, keys, world⟩).1
    have entity := node.entity_run_of_inert (severed.inert id node live outside)
      (severed.forgetful id node live outside) (p.graph.resolveInputs id) ⟨p.entity, keys, world⟩
    rw [execute_eq live]
    generalize node.run (p.graph.resolveInputs id) ⟨p.entity, keys, world⟩ = run at still entity
    have same : q.entity = run.entity := apart.entity.trans entity.symm
    have rested : Graph.AgreeOn part (p.graph.setNode id { run.node with active := false })
        q.graph := apart.graph.setNode_left outside live still
    have severedRested : (p.graph.setNode id { run.node with active := false }).Severed part :=
      severed.of_program (Graph.strip_setNode live still)
    simp only
    generalize p.graph.setNode id { run.node with active := false } = pRested at *
    cases run.outcome with
    | ran activations =>
      have targets (target : NodeId) (member : target ∈ pRested.activated id activations) :
          part target = false := (severedRested.part_activated member).trans outside
      obtain ⟨graph, pending⟩ := rested.awaken_left p.pending targets
      exact ⟨graph, same, apart.pending.trans pending.symm, trace _ rfl, apart.faults⟩
    | faulted kind =>
      refine ⟨rested, same, apart.pending, trace _ rfl, ?_⟩
      simp [fault, apart.faults, List.filter_append, outside]
    | skipped => exact ⟨rested, same, apart.pending, trace _ rfl, apart.faults⟩
    | escaped =>
      refine ⟨apart.graph, same, ?_, trace _ rfl, apart.faults⟩
      simp [apart.pending, outside]

/-- However far the first runs, the second comes to be apart from it on the way: it has ended there
just as the first, or it goes on because the first was stopped in the middle. -/
theorem Apart.advance (apart : Apart part p q) (severed : p.graph.Severed part)
    (keys : Keyboard) (world : World) {budget more : Nat} (enough : budget ≤ more) :
    ∃ reached, Apart part (p.advance keys world budget).1 reached ∧
      (q.advance keys world more = (reached, (p.advance keys world budget).2) ∨
        (p.advance keys world budget).2 ≠ .settled ∧
          ∃ left, q.advance keys world more = reached.advance keys world left) := by
  induction budget generalizing p q more with
  | zero =>
    cases queue : p.pending with
    | nil =>
      have empty : q.pending = [] := by rw [apart.pending, queue, List.filter_nil]
      rw [advance_nil queue, advance_nil empty]
      exact ⟨q, apart, Or.inl rfl⟩
    | cons id rest =>
      rw [advance_zero queue]
      exact ⟨q, apart, Or.inr ⟨by simp, more, rfl⟩⟩
  | succ budget ih =>
    cases queue : p.pending with
    | nil =>
      have empty : q.pending = [] := by rw [apart.pending, queue, List.filter_nil]
      rw [advance_nil queue, advance_nil empty]
      exact ⟨q, apart, Or.inl rfl⟩
    | cons id rest =>
      have program := program_execute { p with pending := rest } keys world id
      have severedNext := severed.of_program program
      rw [advance_succ queue]
      cases side : part id with
      | true =>
        have head : q.pending = id :: rest.filter part := by
          rw [apart.pending, queue, List.filter_cons_of_pos side]
        have popped : Apart part { p with pending := rest }
            { q with pending := rest.filter part } := { apart with pending := rfl }
        obtain ⟨ran, escaped⟩ := popped.turn_inside severed keys world side
        obtain ⟨left, rfl⟩ : ∃ left, more = left + 1 := ⟨more - 1, by omega⟩
        rw [advance_succ head]
        simp only [escaped]
        split
        · exact ⟨_, ran, Or.inl rfl⟩
        · exact ih ran severedNext (by omega)
      | false =>
        have popped : Apart part { p with pending := rest } q := by
          refine { apart with pending := ?_ }
          rw [apart.pending, queue, List.filter_cons_of_neg (by simp [side])]
        have ran := popped.turn_outside severed keys world side
        simp only
        split
        · exact ⟨q, ran, Or.inr ⟨by simp, more, rfl⟩⟩
        · exact ih ran severedNext (by omega)

end Propagation

end Flowgraph
