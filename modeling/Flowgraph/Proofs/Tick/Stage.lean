import Flowgraph.Proofs.Graph.Reachable
import Flowgraph.Proofs.Tick.Turn

namespace Flowgraph

open Propagation (Run Turn CutShort)

theorem getElem?_push_of_some {runs : Array Execution} {n : Nat} {e f : Execution}
    (entry : runs[n]? = some e) : (runs.push f)[n]? = some e := by
  have bound := (Array.getElem?_eq_some_iff.mp entry).1
  rw [Array.getElem?_push, if_neg (Nat.ne_of_lt bound), entry]

/-- An entry of a longer trace is the last one or an old one. -/
theorem getElem?_push_cases {runs : Array Execution} {n : Nat} {e f : Execution}
    (entry : (runs.push f)[n]? = some e) :
    n = runs.size ∧ e = f ∨ n < runs.size ∧ runs[n]? = some e := by
  rw [Array.getElem?_push] at entry
  split at entry
  · exact Or.inl ⟨‹_›, (Option.some.inj entry).symm⟩
  · exact Or.inr ⟨(Array.getElem?_eq_some_iff.mp entry).1, entry⟩

namespace Graph

/-- The runs of a tick, in order, on whichever exit. -/
def trace (g : Graph) (scene : Scene) : Array Execution := (g.propagate scene).1.trace

/-- The states of the loop of a tick before each look at the queue. -/
inductive Stage (g : Graph) (scene : Scene) : Propagation → Prop
  | start : Stage g scene (Propagation.start g scene.entity)
  | next {p q : Propagation} {id : NodeId} {rest : List NodeId} :
      Stage g scene p → p.executions < g.cap → p.pending = id :: rest →
      { p with pending := rest }.execute scene.keys scene.world id = (q, false) →
      Stage g scene q

/-- How the loop of a tick stops: with nothing due, at the cap, or in a run that does not return. -/
inductive Ends (g : Graph) (scene : Scene) : Propagation × Ending → Prop
  | settled {p : Propagation} : g.Stage scene p → p.pending = [] → Ends g scene (p, .settled)
  | capped {p : Propagation} : g.Stage scene p → p.pending ≠ [] → p.executions = g.cap →
      Ends g scene (p, .capped)
  | escaped {p q : Propagation} {id : NodeId} {rest : List NodeId} :
      g.Stage scene p → p.pending = id :: rest →
      { p with pending := rest }.execute scene.keys scene.world id = (q, true) →
      Ends g scene (q, .escaped)

/-- What holds at every stage of a tick. -/
structure Running (g : Graph) (p : Propagation) : Prop where
  queued : p.Queued
  program : p.graph.program = g.program
  phase : p.graph.phase = .propagating
  ticks : p.graph.ticks = g.ticks
  counted : p.trace.size = p.executions

variable {g : Graph} {scene : Scene} {p q : Propagation}

theorem executions_execute (p : Propagation) (keys : Keyboard) (world : World) (id : NodeId) :
    (p.execute keys world id).1.executions = p.executions + 1 := by
  unfold Propagation.execute
  split
  · rfl
  · simp only
    split <;> rfl

theorem Stage.ends_advance (stage : g.Stage scene p) {budget : Nat}
    (left : p.executions + budget = g.cap) :
    g.Ends scene (p.advance scene.keys scene.world budget) := by
  induction budget generalizing p with
  | zero =>
    cases queue : p.pending with
    | nil =>
      rw [Propagation.advance_nil queue]
      exact .settled stage queue
    | cons id rest =>
      rw [Propagation.advance_zero queue]
      exact .capped stage (by simp [queue]) left
  | succ budget ih =>
    cases queue : p.pending with
    | nil =>
      rw [Propagation.advance_nil queue]
      exact .settled stage queue
    | cons id rest =>
      have count := executions_execute { p with pending := rest } scene.keys scene.world id
      rw [Propagation.advance_succ queue]
      cases ran : { p with pending := rest }.execute scene.keys scene.world id with
      | mk q cut =>
        rw [ran] at count
        cases cut with
        | true => exact .escaped stage queue ran
        | false =>
          have room : p.executions < g.cap := by omega
          have spent : q.executions + budget = g.cap := by
            simp only at count
            omega
          exact ih (.next stage room queue ran) spent

theorem propagate_ends (g : Graph) (scene : Scene) : g.Ends scene (g.propagate scene) :=
  Stage.start.ends_advance (Nat.zero_add g.cap)

theorem Stage.executions_le (stage : g.Stage scene p) : p.executions ≤ g.cap := by
  cases stage with
  | start => exact Nat.zero_le _
  | @next p _ id rest _ room _ ran =>
    have count := executions_execute { p with pending := rest } scene.keys scene.world id
    rw [ran] at count
    simp only at count
    omega

/-- From each of its stages a tick goes on to the same end. -/
theorem Stage.advance_eq (stage : g.Stage scene p) {budget : Nat}
    (left : p.executions + budget = g.cap) :
    p.advance scene.keys scene.world budget = g.propagate scene := by
  induction stage generalizing budget with
  | start =>
    obtain rfl : budget = g.cap := (Nat.zero_add budget).symm.trans left
    rfl
  | @next p q id rest _ _ queue ran ih =>
    have count := executions_execute { p with pending := rest } scene.keys scene.world id
    rw [ran] at count
    simp only at count
    have left : p.executions + (budget + 1) = g.cap := by omega
    have onward := ih left
    rw [Propagation.advance_succ queue, ran] at onward
    exact onward

/-- With nothing due any more a tick is at its end. -/
theorem Stage.propagate_of_settled (stage : g.Stage scene p) (empty : p.pending = []) :
    g.propagate scene = (p, .settled) := by
  rw [← stage.advance_eq (Nat.add_sub_of_le stage.executions_le), Propagation.advance_nil empty]

/-- With nodes still due after as many runs as the cap allows, a tick is at its end. -/
theorem Stage.propagate_of_capped (stage : g.Stage scene p) (spent : p.executions = g.cap)
    (waiting : p.pending ≠ []) : g.propagate scene = (p, .capped) := by
  obtain ⟨id, rest, queue⟩ := List.exists_cons_of_ne_nil waiting
  have onward := stage.advance_eq ((Nat.add_zero _).trans spent)
  rw [← onward, Propagation.advance_zero queue]

/-- The nodes that are due, oldest first. -/
def seeds (g : Graph) : List NodeId := (g.nodeList.filter (·.active)).map (·.id)

theorem ascending_seeds (whole : g.Integrity) : g.seeds.Pairwise (·.index < ·.index) :=
  List.pairwise_map.mpr (whole.ascending.filter _)

theorem nodup_seeds (whole : g.Integrity) : g.seeds.Nodup :=
  (ascending_seeds whole).imp fun before same => Nat.ne_of_lt before (congrArg NodeId.index same)

/-- The seeds are the nodes that are due when the tick begins. -/
theorem mem_seeds (whole : g.Integrity) {id : NodeId} : id ∈ g.seeds ↔ g.IsActive id := by
  simp only [seeds, List.mem_map, List.mem_filter]
  constructor
  · rintro ⟨node, ⟨member, active⟩, own⟩
    exact ⟨node, whole.live_iff_mem.mpr ⟨member, own⟩, active⟩
  · rintro ⟨node, live, active⟩
    obtain ⟨member, own⟩ := whole.live_iff_mem.mp live
    exact ⟨node, ⟨member, active⟩, own⟩

theorem running_start (whole : g.Integrity) (entity : Entity) :
    g.Running (Propagation.start g entity) :=
  ⟨⟨nodup_seeds whole, fun _ => mem_seeds whole⟩, rfl, rfl, rfl, rfl⟩

theorem Running.integrity (running : g.Running p) (whole : g.Integrity) : p.graph.Integrity :=
  whole.of_program running.program

/-- Wiring and templates at a stage are those of the start, and so are activations. -/
theorem Running.edge? (running : g.Running p) : p.graph.edge? = g.edge? :=
  edge?_of_program running.program

/-- A node at a stage is one of the start, of the same template. -/
theorem Running.twin (running : g.Running p) {id : NodeId} {node : Node}
    (live : p.graph.node? id = some node) :
    ∃ twin, g.node? id = some twin ∧ twin.template = node.template := by
  obtain ⟨twin, atId, _, template⟩ :=
    node?_of_skeleton (skeleton_eq_of_program running.program) live
  exact ⟨twin, atId, template⟩

theorem Running.isEvent_iff (running : g.Running p) (id : NodeId) :
    p.graph.IsEvent id ↔ g.IsEvent id :=
  isEvent_of_skeleton (skeleton_eq_of_program running.program) id

theorem Running.activates_iff (running : g.Running p) (e : Execution) (id : NodeId) :
    e.Activates p.graph id ↔ e.Activates g id :=
  activates_of_program running.program e id

/-- A turn keeps the program of the graph and the invariant of its queue. -/
theorem Running.turn {e : Execution} {node : Node} {rest woken : List NodeId}
    (running : g.Running p) (whole : g.Integrity)
    (turn : Turn scene.keys scene.world p q e node rest woken) : g.Running q := by
  obtain ⟨nodes, others⟩ := turn.others
  refine ⟨turn.queued running.queued (running.integrity whole),
    turn.program.trans running.program, ?_, ?_, ?_⟩
  · rw [others]
    exact running.phase
  · rw [others]
    exact running.ticks
  · rw [turn.trace, Array.size_push, turn.executions, running.counted]

theorem Stage.running (stage : g.Stage scene p) (whole : g.Integrity) : g.Running p := by
  induction stage with
  | start => exact running_start whole scene.entity
  | next _ _ queue ran ih =>
    obtain ⟨e, node, woken, turn⟩ := ih.queued.turn (ih.integrity whole) queue ran
    exact ih.turn whole turn

/-- Induction over the stages of a tick, turn by turn. -/
@[elab_as_elim]
theorem Stage.induct (whole : g.Integrity) {motive : Propagation → Prop}
    (start : motive (Propagation.start g scene.entity))
    (next : ∀ {p q e node rest woken}, g.Stage scene p → g.Running p →
      Turn scene.keys scene.world p q e node rest woken → motive p → motive q)
    (stage : g.Stage scene p) : motive p := by
  induction stage with
  | start => exact start
  | next before _ queue ran ih =>
    have running := before.running whole
    obtain ⟨e, node, woken, turn⟩ := running.queued.turn (running.integrity whole) queue ran
    exact next before running turn ih

/-- Each entry of the trace was made at the stage that had as many entries as are before it. -/
theorem Stage.run_of_trace (stage : g.Stage scene p) (whole : g.Integrity) {i : Nat} {e : Execution}
    (entry : p.trace[i]? = some e) : ∃ before node rest,
      g.Stage scene before ∧ before.trace.size = i ∧
        Run scene.keys scene.world before e node rest := by
  revert entry
  refine Stage.induct whole ?_ ?_ stage
  · intro entry
    simp [Propagation.start] at entry
  · intro p q f node rest woken before _ turn ih entry
    rw [turn.trace] at entry
    rcases getElem?_push_cases entry with ⟨last, rfl⟩ | ⟨_, old⟩
    · exact ⟨p, node, rest, before, last.symm, turn.toRun⟩
    · exact ih old

/-- The same for the whole trace of a tick, in which the last run may not have returned. -/
theorem run_of_trace (whole : g.Integrity) {i : Nat} {e : Execution}
    (entry : (g.trace scene)[i]? = some e) : ∃ p node rest,
      g.Stage scene p ∧ p.trace.size = i ∧ Run scene.keys scene.world p e node rest := by
  unfold trace at entry
  have ends := g.propagate_ends scene
  generalize g.propagate scene = result at ends entry
  cases ends with
  | settled stage => exact stage.run_of_trace whole entry
  | capped stage => exact stage.run_of_trace whole entry
  | escaped stage queue ran =>
    obtain ⟨last, node, cut⟩ := (stage.running whole).queued.cutShort queue ran
    simp only [cut.trace] at entry
    rcases getElem?_push_cases entry with ⟨size, rfl⟩ | ⟨_, old⟩
    · exact ⟨_, node, _, stage, size.symm, cut.toRun⟩
    · exact stage.run_of_trace whole old

theorem size_trace (whole : g.Integrity) :
    (g.trace scene).size = (g.propagate scene).1.executions := by
  unfold trace
  have ends := g.propagate_ends scene
  generalize g.propagate scene = result at ends
  cases ends with
  | settled stage => exact (stage.running whole).counted
  | capped stage => exact (stage.running whole).counted
  | escaped stage queue ran =>
    obtain ⟨last, node, cut⟩ := (stage.running whole).queued.cutShort queue ran
    rw [cut.trace, Array.size_push, cut.executions, (stage.running whole).counted]

/-- The join runs when the short way has reached it, and again when the long one has. -/
theorem trace_detour : detour.trace quiet =
    #[⟨⟨1⟩, [], .ran [true]⟩, ⟨⟨3⟩, [.bool true, PortType.any.zero], .ran [true]⟩,
      ⟨⟨2⟩, [.bool true], .ran [true]⟩, ⟨⟨3⟩, [.bool true, .bool true], .ran [true]⟩] := rfl

end Graph

end Flowgraph
