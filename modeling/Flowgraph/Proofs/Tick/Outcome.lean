import Flowgraph.Proofs.Tick.Worklist

namespace Flowgraph

open Propagation (CutShort)

namespace Graph

variable {g : Graph} {scene : Scene}

/-- The fault that a run is reported with, if it faulted. -/
def faultOf? (g : Graph) (e : Execution) : Option NodeFault :=
  match e.outcome, g.node? e.node with
  | .faulted kind, some node => some ⟨e.node, node.template.name, kind⟩
  | _, _ => none

/-- A fault as it is reported of a run that met with it. -/
structure Reports (g : Graph) (e : Execution) (fault : NodeFault) : Prop where
  node : fault.node = e.node
  kind : e.outcome = .faulted fault.kind
  template : ∃ node, g.node? e.node = some node ∧ fault.template = node.template.name

/-- A run is reported with its fault, if it has one. -/
theorem faultOf?_eq_some {e : Execution} {fault : NodeFault} :
    g.faultOf? e = some fault ↔ g.Reports e fault := by
  constructor
  · intro found
    unfold faultOf? at found
    split at found
    · rename_i kind node outcome live
      cases found
      exact ⟨rfl, outcome, node, live, rfl⟩
    · cases found
  · rintro ⟨own, outcome, node, live, template⟩
    simp only [faultOf?, outcome, live]
    rw [← own, ← template]

theorem faultOf?_of_skeleton {h : Graph} (same : g.skeleton = h.skeleton) :
    h.faultOf? = g.faultOf? := by
  funext e
  unfold faultOf?
  cases e.outcome with
  | faulted kind =>
    cases live : g.node? e.node with
    | none =>
      cases twin : h.node? e.node with
      | none => rfl
      | some other =>
        obtain ⟨_, atId, _⟩ := node?_of_skeleton same.symm twin
        cases atId.symm.trans live
    | some node =>
      obtain ⟨twin, atId, _, template⟩ := node?_of_skeleton same live
      simp only [atId, template]
  | _ => rfl

/-- A run adds its fault to those that are reported, if it has one. -/
theorem faults_execute (p : Propagation) (keys : Keyboard) (world : World) {id : NodeId}
    {node : Node} (live : p.graph.node? id = some node) :
    ∃ e, (p.execute keys world id).1.trace = p.trace.push e ∧
      (p.execute keys world id).1.faults.toList =
        p.faults.toList ++ (p.graph.faultOf? e).toList := by
  rw [Propagation.execute_eq live]
  generalize node.run (p.graph.resolveInputs id) ⟨p.entity, keys, world⟩ = run
  refine ⟨⟨id, p.graph.resolveInputs id, run.outcome⟩, ?_, ?_⟩
  · simp only
    cases run.outcome <;> rfl
  · simp only [faultOf?, live]
    cases run.outcome with
    | faulted kind => simp only [Propagation.fault, Array.toList_push, Option.toList_some]
    | _ => exact (List.append_nil _).symm

/-- The faults at a stage are those of the runs so far, in their order. -/
theorem Stage.faults {p : Propagation} (stage : g.Stage scene p) (whole : g.Integrity) :
    p.faults.toList = p.trace.toList.filterMap g.faultOf? := by
  induction stage with
  | start => rfl
  | @next p q id rest before _ queue ran ih =>
    have running := before.running whole
    obtain ⟨node, live, _⟩ := running.queued.head_due queue
    obtain ⟨e, trace, faults⟩ := faults_execute { p with pending := rest } scene.keys scene.world
      live
    rw [ran] at trace faults
    have same : p.graph.faultOf? = g.faultOf? :=
      faultOf?_of_skeleton (skeleton_eq_of_program running.program.symm)
    simp only at trace faults
    rw [trace, faults, ih, same, Array.toList_push, List.filterMap_append, List.filterMap_cons,
      List.filterMap_nil]
    cases g.faultOf? e <;> rfl

/-- The stage at which a tick completed, and what was made of it. -/
structure LastStage (g : Graph) (scene : Scene) (report : TickReport) (p : Propagation) : Prop where
  done : (g.tick scene).result = .ok report
  stage : g.Stage scene p
  trace : g.trace scene = p.trace
  settled : report.overflowed = false → p.pending = []
  capped : report.overflowed = true → p.pending ≠ [] ∧ p.executions = g.cap
  executions : report.executions = p.executions
  reply : g.tick scene =
    if report.overflowed then (p.abandon g.cap).finish true else p.finish false
  completed : g.Completed (g.tick scene).graph
  faults : ∃ last, report.faults = p.faults.toList ++ last ∧
    ∀ fault ∈ last, fault.kind = .overflow g.cap
  nodes : ∀ id, (g.tick scene).graph.node? id =
    (p.graph.node? id).map fun node => { node with active := false }

end Graph

namespace Propagation

theorem Queued.resting {p : Propagation} (queued : p.Queued) {id : NodeId} {node : Node}
    (live : p.graph.node? id = some node) (absent : id ∉ p.pending) : node.active = false := by
  cases due : node.active with
  | false => rfl
  | true => exact absurd ((queued.mem_iff id).mpr ⟨node, live, due⟩) absent

/-- At the cap the node at the head of the queue is named. -/
theorem Queued.faults_abandon {p : Propagation} (queued : p.Queued) {id : NodeId}
    {rest : List NodeId} (queue : p.pending = id :: rest) (cap : Nat) :
    ∃ node, p.graph.node? id = some node ∧ (p.abandon cap).faults.toList =
      p.faults.toList ++ [⟨id, node.template.name, .overflow cap⟩] := by
  obtain ⟨node, live, _⟩ := queued.head_due queue
  refine ⟨node, live, ?_⟩
  unfold Propagation.abandon
  simp only [queue, live]
  exact Array.toList_push

end Propagation

namespace Graph

variable {g : Graph} {scene : Scene}

theorem lastStage_of_tick (whole : g.Integrity) {report : TickReport}
    (done : (g.tick scene).result = .ok report) : ∃ p, g.LastStage scene report p := by
  have idle : g.phase = .idle := by
    by_cases idle : g.phase = .idle
    · exact idle
    · rw [g.tick_of_busy scene idle] at done
      cases done
  have ticked := tick_of_idle idle scene
  have ends := g.propagate_ends scene
  generalize reached : g.propagate scene = result at ticked ends
  cases ends with
  | @settled p stage empty =>
    simp only at ticked
    rw [ticked] at done
    cases done
    have running := stage.running whole
    have queued := running.queued
    refine ⟨p, congrArg TickReply.result ticked, stage, congrArg (·.1.trace) reached,
      fun _ => empty, by simp, rfl, ticked, ticked ▸ completed_settled running empty,
      ⟨[], (List.append_nil _).symm, by simp⟩, fun id => ?_⟩
    rw [ticked]
    change p.graph.node? id = _
    cases live : p.graph.node? id with
    | none => rfl
    | some node =>
      rw [Option.map_some, ← queued.resting live (by simp [empty])]
  | @capped p stage waiting spent =>
    simp only at ticked
    rw [ticked] at done
    cases done
    have running := stage.running whole
    have queued := running.queued
    obtain ⟨head, rest, queue⟩ := List.exists_cons_of_ne_nil waiting
    obtain ⟨named, _, faults⟩ := queued.faults_abandon queue g.cap
    refine ⟨p, congrArg TickReply.result ticked, stage, congrArg (·.1.trace) reached, by simp,
      fun _ => ⟨waiting, spent⟩, p.executions_abandon g.cap, ticked,
      ticked ▸ completed_capped running g.cap, ⟨_, faults, by simp⟩, fun id => ?_⟩
    rw [ticked]
    change (p.abandon g.cap).graph.node? id = _
    rw [Propagation.graph_abandon, node?_drain]
    cases live : p.graph.node? id with
    | none => rfl
    | some node =>
      simp only [Option.map_some]
      split
      · rfl
      · rename_i absent
        rw [← queued.resting live absent]
  | escaped =>
    rw [ticked] at done
    cases done

theorem LastStage.size_trace {report : TickReport} {p : Propagation}
    (last : g.LastStage scene report p) (whole : g.Integrity) :
    (g.trace scene).size = report.executions := by
  rw [last.trace, last.executions, (last.stage.running whole).counted]

theorem LastStage.entity {report : TickReport} {p : Propagation}
    (last : g.LastStage scene report p) : (g.tick scene).entity = p.entity := by
  rw [last.reply]
  split
  · exact p.entity_abandon g.cap
  · rfl

/-- A tick of an idle graph completes, or it is cut short and leaves the graph of its last stage. -/
theorem completes_or_cutShort (whole : g.Integrity) (idle : g.phase = .idle) (scene : Scene) :
    (∃ report, (g.tick scene).result = .ok report) ∨ ∃ p q e node rest, g.Stage scene p ∧
      CutShort scene.keys scene.world p q e node rest ∧ g.trace scene = q.trace ∧
      (g.tick scene).graph = p.graph := by
  have ticked := tick_of_idle idle scene
  have ends := g.propagate_ends scene
  unfold trace
  generalize g.propagate scene = result at ticked ends ⊢
  cases ends with
  | settled => exact Or.inl ⟨_, congrArg TickReply.result ticked⟩
  | capped => exact Or.inl ⟨_, congrArg TickReply.result ticked⟩
  | @escaped p q _ rest stage queue ran =>
    obtain ⟨e, node, cut⟩ := (stage.running whole).queued.cutShort queue ran
    refine Or.inr ⟨p, q, e, node, rest, stage, cut, rfl, ?_⟩
    rw [ticked]
    exact cut.graph

end Graph

/-- A property of nodes that a node keeps when it runs, and that is no matter of its being due. -/
structure Node.Lasting (motive : Node → Prop) : Prop where
  run : ∀ (node : Node) inputs scene, motive node → motive (node.run inputs scene).node
  active : ∀ (node : Node) active, motive node → motive { node with active }

namespace Graph

variable {g : Graph} {scene : Scene} {motive : Node → Prop}

/-- What a run of a node keeps holds of all nodes at every stage of a tick. -/
theorem Stage.forall_nodes {p : Propagation} (stage : g.Stage scene p) (whole : g.Integrity)
    (lasting : Node.Lasting motive) (holds : ∀ id node, g.node? id = some node → motive node) :
    ∀ id node, p.graph.node? id = some node → motive node := by
  refine Stage.induct whole ?_ ?_ stage
  · exact holds
  · intro p q e node rest woken _ _ turn before id after live
    rw [turn.nodes] at live
    obtain ⟨left, atId, rfl⟩ := Option.map_eq_some_iff.mp live
    have kept : motive left := by
      split at atId
      · cases atId
        exact lasting.active _ false (lasting.run _ _ _ (before _ _ turn.live))
      · exact before id left atId
    split
    · exact lasting.active _ true kept
    · exact kept

/-- What all nodes keep in their runs holds of them after a tick, on whichever exit. -/
theorem forall_nodes_tick (whole : g.Integrity) (lasting : Node.Lasting motive)
    (holds : ∀ id node, g.node? id = some node → motive node) :
    ∀ id node, (g.tick scene).graph.node? id = some node → motive node := by
  by_cases idle : g.phase = .idle
  · rcases completes_or_cutShort whole idle scene with
      ⟨report, done⟩ | ⟨p, _, _, _, _, stage, _, _, same⟩
    · obtain ⟨p, last⟩ := lastStage_of_tick whole done
      intro id node live
      rw [last.nodes] at live
      obtain ⟨before, atId, rfl⟩ := Option.map_eq_some_iff.mp live
      exact lasting.active _ false (last.stage.forall_nodes whole lasting holds id before atId)
    · rw [same]
      exact stage.forall_nodes whole lasting holds
  · rw [g.tick_of_busy scene idle]
    exact holds

end Graph

end Flowgraph
