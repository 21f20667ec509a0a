import Flowgraph.Proofs.Graph.Change
import Flowgraph.Proofs.Tick.Freshness
import Flowgraph.Proofs.Tick.Outcome

namespace Flowgraph

open Propagation (Run)

namespace Graph

variable {g h : Graph} {scene : Scene} {id : NodeId}

theorem nodeList_program (g : Graph) : g.program.nodeList = g.nodeList.map Node.still :=
  g.nodeList_mapNodes Node.still

theorem save_program (g : Graph) : g.program.save = g.save := by
  have position (id : NodeId) : g.program.position? id = g.position? id := by
    simp only [position?, nodeList_program, List.findIdx?_map, Function.comp_def, Node.still]
  have edge (e : Edge) : g.program.saveEdge? e = g.saveEdge? e := by
    simp only [saveEdge?, position]
  have edges : g.program.edgeList = g.edgeList := rfl
  simp only [save, nodeList_program, List.map_map, Function.comp_def, Node.still, edges, edge]

theorem edgesAt_program (g : Graph) : g.program.edgesAt = g.edgesAt := by
  funext ref
  have found : g.program.find? ref = (g.find? ref).map Node.still := by
    unfold find?
    by_cases own : ref.graph = g.id
    · rw [if_pos own, if_pos (show ref.graph = g.program.id from own)]
      exact node?_strip Node.still g ref.node
    · rw [if_neg own, if_neg (show ¬ ref.graph = g.program.id from own)]
      rfl
  unfold edgesAt
  rw [found]
  cases g.find? ref <;> rfl

/-- Two graphs say the same but for what execution changes: what is stored at the nodes, what is
due, and how far the ticks have come. -/
structure SameProgram (g h : Graph) : Prop where
  id : h.id = g.id
  registry : h.registry = g.registry
  config : h.config = g.config
  saved : h.save = g.save
  /-- The nodes, oldest first, with their templates and settings. -/
  nodes : h.nodeList.map (fun node => (node.id, node.template, node.internals)) =
    g.nodeList.map fun node => (node.id, node.template, node.internals)
  edges : h.edgeList = g.edgeList
  /-- The edges that end and that start at any node. -/
  edgesAt : ∀ ref, h.edgesAt ref = g.edgesAt ref
  liveNodes : h.liveNodes = g.liveNodes
  liveEdges : h.liveEdges = g.liveEdges

/-- Graphs of one program agree in all that does not depend on execution. -/
theorem SameProgram.of_program (same : h.program = g.program) : g.SameProgram h where
  id := (congrArg Graph.id same :)
  registry := (congrArg Graph.registry same :)
  config := (congrArg Graph.config same :)
  saved := by rw [← save_program h, same, save_program]
  nodes := by
    have stripped := congrArg
      (fun f : Graph => f.nodeList.map fun node => (node.id, node.template, node.internals)) same
    simpa only [nodeList_program, List.map_map, Function.comp_def, Node.still] using stripped
  edges := (congrArg Graph.edgeList same :)
  edgesAt ref := by rw [← edgesAt_program h, same, edgesAt_program]
  liveNodes := (congrArg Graph.liveNodes same :)
  liveEdges := (congrArg Graph.liveEdges same :)

theorem program_afterAll {calls : List Call} (runs : ∀ call ∈ calls, ¬ call.Edits) (g : Graph) :
    (g.afterAll calls).program = g.program := by
  induction calls generalizing g with
  | nil => rfl
  | cons call rest ih =>
    obtain ⟨first, others⟩ := List.forall_mem_cons.mp runs
    exact (ih others (call.after g)).trans (call.program_after first g)

/-- Between ticks nothing is stored. -/
theorem storedAt_after {call : Call} (runs : ¬ call.Edits) (between : ¬ call.Ticks) (g : Graph)
    (id : NodeId) : (call.after g).storedAt id = g.storedAt id := by
  have same := skeleton_eq_of_program (call.program_after runs g)
  unfold storedAt
  cases live : (call.after g).node? id with
  | none =>
    cases before : g.node? id with
    | none => rfl
    | some node =>
      obtain ⟨_, atId, _⟩ := node?_of_skeleton same.symm before
      cases atId.symm.trans live
  | some node =>
    obtain ⟨twin, atId, _⟩ := node?_of_skeleton same live
    rcases call.change_after between g live with ⟨_, _, _, last, _⟩ | ⟨old, atOld, change⟩
    · exact absurd last (Nat.ne_of_lt (index_lt_of_node? atId))
    · rw [atOld, Option.map_some, Option.map_some, change.outputs.2]

/-- What a node has stored is there as long as no run of it stores. -/
theorem Stage.storedAt_of_silent {p : Propagation} (stage : g.Stage scene p) (whole : g.Integrity)
    (silent : Silent p.trace 0 id) : p.graph.storedAt id = g.storedAt id := by
  revert silent
  refine Stage.induct whole ?_ ?_ stage
  · exact fun _ => rfl
  · intro p q e node rest woken _ _ turn ih silent
    rw [turn.trace] at silent
    rw [turn.storedAt fun same => (same ▸ silent).last (Nat.zero_le _)]
    exact ih silent.of_push

/-- However a tick ends, what is stored at its end is what was stored at its last stage. Only a run
that did not return can follow that stage. -/
theorem storedAt_tick (whole : g.Integrity) (idle : g.phase = .idle) (scene : Scene) :
    ∃ p, g.Stage scene p ∧ (∀ id, (g.tick scene).graph.storedAt id = p.graph.storedAt id) ∧
      (g.trace scene = p.trace ∨ ∃ e, g.trace scene = p.trace.push e ∧ e.outcome = .escaped) := by
  rcases completes_or_cutShort whole idle scene with
    ⟨report, done⟩ | ⟨p, q, e, _, _, stage, cut, trace, same⟩
  · obtain ⟨p, last⟩ := lastStage_of_tick whole done
    refine ⟨p, last.stage, fun id => ?_, Or.inl last.trace⟩
    rw [storedAt, last.nodes, Option.map_map]
    rfl
  · exact ⟨p, stage, fun id => by rw [same], Or.inr ⟨e, trace.trans cut.trace, cut.escaped⟩⟩

/-- The results with which a run, the one at a position of a tick, stored. -/
def Stored (g : Graph) (scene : Scene) (position : Nat) (e : Execution)
    (results : List PortResult) : Prop :=
  ∃ p node rest, g.Stage scene p ∧ p.trace.size = position ∧
    Run scene.keys scene.world p e node rest ∧
    node.Produces e.inputs ⟨p.entity, scene.keys, scene.world⟩ results ∧
    e.outcome = .ran (results.map (·.activates))

/-- What the last run of a node that stored has come up with is stored there at every later
stage. -/
theorem Stage.stored {p : Propagation} (stage : g.Stage scene p) (whole : g.Integrity) {j : Nat}
    {e : Execution} {activations : List Bool} (entry : p.trace[j]? = some e)
    (ran : e.outcome = .ran activations) (silent : Silent p.trace (j + 1) e.node) :
    ∃ results, g.Stored scene j e results ∧
      p.graph.storedAt e.node = some (results.map (·.value)) := by
  obtain ⟨before, node, rest, earlier, size, run, kept⟩ := stage.kept whole entry silent
  obtain ⟨results, produced, _, flags, outputs⟩ := node.run_ran _ _ (run.outcome.symm.trans ran)
  exact ⟨results, ⟨before, node, rest, earlier, size, run, produced, ran.trans (by rw [flags])⟩,
    kept.trans (by rw [outputs])⟩

/-- After a tick a node that stored nothing has what it had, and one that did has the results of the
last run in which it did. -/
theorem outputs_tick (whole : g.Integrity) (idle : g.phase = .idle) (scene : Scene) :
    (∀ id, Silent (g.trace scene) 0 id → (g.tick scene).graph.storedAt id = g.storedAt id) ∧
      ∀ (j : Nat) e activations, (g.trace scene)[j]? = some e → e.outcome = .ran activations →
        Silent (g.trace scene) (j + 1) e.node → ∃ results, g.Stored scene j e results ∧
          (g.tick scene).graph.storedAt e.node = some (results.map (·.value)) := by
  obtain ⟨p, stage, kept, trace | ⟨f, trace, escaped⟩⟩ := storedAt_tick whole idle scene
  · rw [trace]
    refine ⟨fun id silent => ?_, fun j e activations entry ran silent => ?_⟩
    · rw [kept, stage.storedAt_of_silent whole silent]
    · rw [kept]
      exact stage.stored whole entry ran silent
  · rw [trace]
    refine ⟨fun id silent => ?_, fun j e activations entry ran silent => ?_⟩
    · rw [kept, stage.storedAt_of_silent whole silent.of_push]
    · rw [kept]
      rcases getElem?_push_cases entry with ⟨_, rfl⟩ | ⟨_, old⟩
      · cases escaped.symm.trans ran
      · exact stage.stored whole old ran silent.of_push

/-- The tick that a call runs: the graph that it is run on, and its scene. A step runs it on the
graph that has been told of the clock; a graph in the middle of a tick runs none. -/
def Call.ticking? (g : Graph) : Call → Option (Graph × Scene)
  | .tick scene => if g.isIdle then some (g, scene) else none
  | .step scene =>
    if g.isIdle then some ((g.notifyTick scene.world.delta).graph, scene) else none
  | _ => none

/-- The graph on which a call runs a tick has stored what the graph of the call has. -/
theorem ticking_cases (reach : g.Reachable) {call : Call} (runs : ¬ call.Edits) :
    (call.ticking? g = none ∧ ∀ id, (call.after g).storedAt id = g.storedAt id) ∨
      ∃ base scene, call.ticking? g = some (base, scene) ∧ base.Integrity ∧ base.phase = .idle ∧
        (∀ id, base.storedAt id = g.storedAt id) ∧ call.after g = (base.tick scene).graph := by
  by_cases idle : g.phase = .idle
  · have free : g.isIdle = true := by simp [isIdle, idle]
    cases call with
    | tick scene =>
      exact Or.inr ⟨g, scene, if_pos free, reach.integrity, idle, fun _ => rfl, rfl⟩
    | step scene =>
      let clock : Call := .notifyTick scene.world.delta
      have runs : ¬ clock.Edits := fun edits => edits
      have between : ¬ clock.Ticks := fun ticks => ticks
      refine Or.inr ⟨clock.after g, scene, if_pos free, (reach.call clock).integrity,
        (clock.phase_after between g).trans idle, storedAt_after runs between g,
        (g.step_eq_tick scene).2.1⟩
    | _ => exact Or.inl ⟨rfl, storedAt_after runs (fun ticks => ticks) g⟩
  · have busy : ¬ g.isIdle = true := by simpa [isIdle] using idle
    cases call with
    | tick scene =>
      refine Or.inl ⟨if_neg busy, fun id => ?_⟩
      rw [Call.after, g.tick_of_busy scene idle]
    | step scene =>
      refine Or.inl ⟨if_neg busy, fun id => ?_⟩
      rw [Call.after, g.step_of_busy scene idle]
    | _ => exact Or.inl ⟨rfl, storedAt_after runs (fun ticks => ticks) g⟩

/-- Calls that only execute never edit: after any of them, whatever the evaluators do and however
the ticks end, the graph has the same program. Such a call changes what is stored at a node only by
a tick in which the node ran and stored, and then to the results of the last run in which it did. -/
theorem execution_edits_nothing (reach : g.Reachable) :
    (∀ calls : List Call, (∀ call ∈ calls, ¬ call.Edits) → g.SameProgram (g.afterAll calls)) ∧
      ∀ call : Call, ¬ call.Edits →
        (call.ticking? g = none → ∀ id, (call.after g).storedAt id = g.storedAt id) ∧
        ∀ base scene, call.ticking? g = some (base, scene) →
          (∀ id, Silent (base.trace scene) 0 id →
            (call.after g).storedAt id = g.storedAt id) ∧
          ∀ (j : Nat) e activations, (base.trace scene)[j]? = some e →
            e.outcome = .ran activations → Silent (base.trace scene) (j + 1) e.node →
            ∃ results, base.Stored scene j e results ∧
              (call.after g).storedAt e.node = some (results.map (·.value)) := by
  refine ⟨fun calls runs => .of_program (program_afterAll runs g), fun call runs => ?_⟩
  rcases ticking_cases reach runs with ⟨none, kept⟩ | ⟨base, scene, some, whole, idle, before, after⟩
  · refine ⟨fun _ => kept, fun base scene some => ?_⟩
    cases none.symm.trans some
  · refine ⟨fun none => (by cases none.symm.trans some), fun _ _ same => ?_⟩
    cases some.symm.trans same
    obtain ⟨unstored, stored⟩ := outputs_tick whole idle scene
    rw [after]
    exact ⟨fun id silent => (unstored id silent).trans (before id), stored⟩

theorem execution_edits_nothing_detour :
    let calls : List Call := [.tick quiet, .activateSources, .step quiet]
    let last : Execution := ⟨⟨3⟩, [.bool true, .bool true], .ran [true]⟩
    detour.Reachable ∧ (∀ call ∈ calls, ¬ call.Edits) ∧
      (detour.afterAll calls).save = detour.save ∧
      (Call.tick quiet).ticking? detour = some (detour, quiet) ∧
      (detour.trace quiet)[3]? = some last ∧ Silent (detour.trace quiet) 4 ⟨3⟩ ∧
      ∃ results, detour.Stored quiet 3 last results ∧
        (detour.tick quiet).graph.storedAt ⟨3⟩ = some (results.map (·.value)) := by
  intro calls last
  have runs : ∀ call ∈ calls, ¬ call.Edits := by
    simp only [calls, List.forall_mem_cons, Call.Edits, not_false_eq_true, true_and]
    exact fun _ member => absurd member List.not_mem_nil
  have entry : (detour.trace quiet)[3]? = some last := by
    rw [trace_detour]
    rfl
  have silent : Silent (detour.trace quiet) 4 ⟨3⟩ := by
    intro j e activations after found
    have bound := (Array.getElem?_eq_some_iff.mp found).1
    simp only [trace_detour, List.size_toArray, List.length_cons, List.length_nil] at bound
    omega
  obtain ⟨program, effects⟩ := execution_edits_nothing reachable_detour
  obtain ⟨_, stored⟩ := (effects (.tick quiet) fun edits => edits).2 detour quiet rfl
  exact ⟨reachable_detour, runs, (program calls runs).saved, rfl, entry, silent,
    stored 3 last [true] entry rfl silent⟩

end Graph

end Flowgraph
