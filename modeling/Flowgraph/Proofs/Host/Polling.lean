import Mathlib.Algebra.GroupWithZero.Nat
import Mathlib.Data.List.Forall2
import Flowgraph.Proofs.Event.Delivery
import Flowgraph.Proofs.Host.Update

namespace Flowgraph

/-- Whether every update makes a node due. -/
def Node.isPolled (node : Node) : Bool :=
  Graph.isSource node || node.template.isEvent && node.template.name == Builtin.onTick

namespace Graph

variable {g : Graph} {scene : Scene} {id : NodeId} {node : Node}

/-- A reachable graph whose ticks may run as often as there are nodes. -/
structure Roomy (g : Graph) : Prop where
  reach : g.Reachable
  factor : 1 ≤ g.config.capFactor
  counted : g.liveNodes ≤ GraphConfig.maxCap

/-- The graph that an update lets tick: its sources are polled, and it is told of the clock. -/
def polled (g : Graph) (scene : Scene) : Graph :=
  (g.activateSources.graph.notifyTick scene.world.delta).graph

/-- Exactly one run of a tick is of the node. -/
def RunsOnce (g : Graph) (scene : Scene) (id : NodeId) : Prop :=
  ∃! i : Nat, ∃ e, (g.trace scene)[i]? = some e ∧ e.node = id

theorem program_polled (g : Graph) (scene : Scene) : (g.polled scene).program = g.program :=
  (program_notifyWhere _ _ _).trans g.program_activateSources

theorem Roomy.polled (roomy : g.Roomy) (scene : Scene) : (g.polled scene).Roomy := by
  have same := g.program_polled scene
  have config : (g.polled scene).config = g.config := (congrArg Graph.config same :)
  have liveNodes : (g.polled scene).liveNodes = g.liveNodes := (congrArg Graph.liveNodes same :)
  refine ⟨(roomy.reach.call .activateSources).call (.notifyTick scene.world.delta), ?_, ?_⟩
  · rw [config]
    exact roomy.factor
  · rw [liveNodes]
    exact roomy.counted

theorem active_polled (idle : g.phase = .idle) (live : g.node? id = some node)
    (polls : node.isPolled = true) (scene : Scene) : (g.polled scene).IsActive id := by
  have phase : g.activateSources.graph.phase = g.phase :=
    Call.activateSources.phase_after (fun ticks => ticks) g
  have free : g.isIdle = true := by simp [isIdle, idle]
  have still : g.activateSources.graph.isIdle = true := by simp [isIdle, phase, idle]
  have read := node?_notifyWhere g.activateSources.graph
    ⟨(·.name == Builtin.onTick), [.float scene.world.delta]⟩ id
  rw [node?_activateSources, live, free, still] at read
  refine ⟨_, read, ?_⟩
  -- a source is no event node, so polling makes it due and the clock passes it by
  simp only [Node.isPolled, isSource, Notification.matches, Bool.true_and] at polls ⊢
  cases event : node.template.isEvent with
  | false =>
    simp only [event, Bool.not_false, Bool.true_and, Bool.false_and, Bool.or_false] at polls
    simp [event, polls]
  | true =>
    simp only [event, Bool.not_true, Bool.true_and, Bool.false_and, Bool.false_or] at polls
    simp [event, polls, Node.arm]

/-- No edge awakens a node that is polled: a source has no inputs, and the others are event
nodes. -/
theorem unwoken_of_polled (whole : g.Integrity) (live : g.node? id = some node)
    (polls : node.isPolled = true) (e : Execution) (activates : e.Activates g id) :
    g.IsEvent id := by
  obtain ⟨_, edgeId, edge, _, atId, _, _, rfl⟩ := activates
  obtain ⟨_, target, _, atTarget, _, wired⟩ := whole.ends edgeId edge atId
  cases live.symm.trans atTarget
  refine ⟨node, live, ?_⟩
  cases event : node.template.isEvent with
  | true => rfl
  | false =>
    have bare : node.template.inputs = [] := by
      simpa [Node.isPolled, isSource, event] using polls
    simp [bare] at wired

/-- Of a tick that may run as often as there are nodes, the first runs are those of the nodes that
are due. -/
theorem Roomy.first_runs (roomy : g.Roomy) {report : TickReport}
    (done : (g.tick scene).result = .ok report) :
    ((g.trace scene).toList.map (·.node)).take g.seeds.length = g.seeds := by
  have whole := roomy.reach.integrity
  obtain ⟨p, last⟩ := lastStage_of_tick whole done
  have first := last.seeds_ran whole (le_cap roomy.factor roomy.counted)
  exact (List.prefix_iff_eq_take.mp first).symm

/-- A node that is due runs once if no edge awakens it. -/
theorem Roomy.runsOnce (roomy : g.Roomy) {report : TickReport}
    (done : (g.tick scene).result = .ok report) (due : g.IsActive id)
    (unwoken : ∀ e : Execution, e.Activates g id → g.IsEvent id) : g.RunsOnce scene id := by
  have whole := roomy.reach.integrity
  obtain ⟨p, last⟩ := lastStage_of_tick whole done
  obtain ⟨e, member, own⟩ := last.ran_of_due whole (le_cap roomy.factor roomy.counted) due
  obtain ⟨i, entry⟩ := Array.mem_iff_getElem?.mp member
  refine ⟨i, ⟨e, entry, own⟩, fun j ⟨f, found, same⟩ => ?_⟩
  exact (once_of_unwoken whole unwoken entry own).2 j f found same

/-- In a graph with room for its nodes each polled node runs exactly once. -/
theorem Roomy.polled_once (roomy : g.Roomy) (idle : g.phase = .idle) {report : TickReport}
    (done : ((g.polled scene).tick scene).result = .ok report) (live : g.node? id = some node)
    (polls : node.isPolled = true) : (g.polled scene).RunsOnce scene id := by
  have room := roomy.polled scene
  refine room.runsOnce done (active_polled idle live polls scene) fun e activates => ?_
  have same := g.program_polled scene
  rw [activates_of_program same] at activates
  rw [isEvent_of_skeleton (skeleton_eq_of_program same)]
  exact unwoken_of_polled roomy.reach.integrity live polls e activates

end Graph

namespace Behavior

open Flowgraph.Graph (Roomy lastStage_of_tick)

variable {g : Graph} {graphs : List Graph} {scene : Scene} {position : Nat}

/-- The ticks of an update that goes through: each graph as it is then, with the scene of its tick,
in which the entity is as the tick before has left it. -/
def ticks (scene : Scene) : List Graph → List (Graph × Scene)
  | [] => []
  | g :: rest =>
    (g.polled scene, scene) ::
      ticks { scene with entity := ((g.polled scene).tick scene).entity } rest

/-- An update of an idle graph is a tick of the graph as it is polled. -/
theorem updateGraph_eq_tick (idle : g.phase = .idle) (scene : Scene) :
    (updateGraph g scene).result = ((g.polled scene).tick scene).result ∧
      (updateGraph g scene).graph = ((g.polled scene).tick scene).graph ∧
      (updateGraph g scene).entity = ((g.polled scene).tick scene).entity := by
  obtain ⟨result, graph, entity⟩ := updateGraph_of_idle idle scene
  obtain ⟨stepResult, stepGraph, stepEntity⟩ := g.activateSources.graph.step_eq_tick scene
  exact ⟨result.trans stepResult, graph.trans stepGraph, entity.trans stepEntity⟩

theorem idle_of_updateGraph {report : TickReport} (done : (updateGraph g scene).result = .ok report) :
    g.phase = .idle := by
  by_contra busy
  rw [updateGraph_of_busy busy] at done
  cases done

/-- An update that goes through takes each graph, which is idle, through its tick, and the runs that
it counts are those of the ticks. -/
theorem updateFrom_ticks {summary : UpdateSummary} (whole : ∀ g ∈ graphs, g.Integrity)
    (done : (updateFrom scene position graphs).result = .ok summary) :
    (updateFrom scene position graphs).graphs =
        (ticks scene graphs).map (fun (g, scene) => (g.tick scene).graph) ∧
      summary.executions = ((ticks scene graphs).map fun (g, scene) => (g.trace scene).size).sum ∧
      List.Forall₂ (fun g tick => g.phase = .idle ∧ (∃ scene, tick = (g.polled scene, scene)) ∧
        ∃ report, (tick.1.tick tick.2).result = .ok report) graphs (ticks scene graphs) := by
  induction graphs generalizing scene position summary with
  | nil =>
    cases done
    exact ⟨rfl, rfl, .nil⟩
  | cons g rest ih =>
    obtain ⟨wholeHere, wholeRest⟩ := List.forall_mem_cons.mp whole
    simp only [updateFrom] at done ⊢
    cases ended : (updateGraph g scene).result with
    | error failure =>
      rw [ended] at done
      cases done
    | ok report =>
      have idle := idle_of_updateGraph ended
      obtain ⟨result, graph, entity⟩ := updateGraph_eq_tick idle scene
      simp only [ended, entity] at done ⊢
      cases later : (updateFrom { scene with entity := ((g.polled scene).tick scene).entity }
        (position + 1) rest).result with
      | error failure =>
        rw [later] at done
        cases done
      | ok others =>
        rw [later] at done
        cases done
        obtain ⟨graphs, executions, each⟩ := ih wholeRest later
        -- the update of the first graph is the tick that polling has led to
        have ticked := result.symm.trans ended
        have polled := wholeHere.of_program (g.program_polled scene)
        obtain ⟨p, last⟩ := lastStage_of_tick polled ticked
        refine ⟨?_, ?_, .cons ⟨idle, ⟨scene, rfl⟩, report, ticked⟩ each⟩
        · rw [graph, graphs]
          rfl
        · change report.executions + others.executions = _
          rw [ticks, List.map_cons, List.sum_cons, executions, last.size_trace polled]

/-- A graph runs first what is due when its tick begins: if the factor of its cap is not zero, the
first runs of a tick that completes are those of the nodes that are due, each once and in order of
creation. So in an update that goes through, each source and each node that waits for the clock runs
exactly once in the one tick of its graph. -/
theorem polling_exact :
    (∀ (g : Graph) (scene : Scene) (report : TickReport), g.Roomy →
      (g.tick scene).result = .ok report →
        (∀ id, id ∈ g.seeds ↔ g.IsActive id) ∧ g.seeds.Pairwise (·.index < ·.index) ∧
          ((g.trace scene).toList.map (·.node)).take g.seeds.length = g.seeds) ∧
    ∀ (b : Behavior) (scene : Scene) (summary : UpdateSummary), (∀ g ∈ b.graphs, g.Roomy) →
      (b.update scene).result = .ok summary →
        (b.update scene).graphs =
            (ticks scene b.graphs).map (fun (g, scene) => (g.tick scene).graph) ∧
          summary.executions =
            ((ticks scene b.graphs).map fun (g, scene) => (g.trace scene).size).sum ∧
          List.Forall₂ (fun g tick => ∀ id node, g.node? id = some node → node.isPolled = true →
            tick.1.RunsOnce tick.2 id) b.graphs (ticks scene b.graphs) := by
  refine ⟨fun g scene report roomy done => ?_, fun b scene summary roomy done => ?_⟩
  · have whole := roomy.reach.integrity
    exact ⟨fun id => Graph.mem_seeds whole, Graph.ascending_seeds whole, roomy.first_runs done⟩
  · obtain ⟨graphs, executions, each⟩ :=
      updateFrom_ticks (fun g member => (roomy g member).reach.integrity) done
    refine ⟨graphs, executions, ((List.forall₂_and_left _ _).mpr ⟨roomy, each⟩).imp ?_⟩
    rintro g _ ⟨roomy, idle, ⟨scene, rfl⟩, report, done⟩ id node live polls
    exact roomy.polled_once idle done live polls

/-- A clock and a seed, and a join that is wired to the clock and to itself. No tick may run more
often than there are nodes. -/
def clockwork : Graph :=
  let clock := Template.Declaration.event "flow" Builtin.onTick [⟨"delta", .float, none⟩]
  let ref (slot : Nat) : NodeRef := ⟨⟨0⟩, ⟨slot⟩⟩
  (Graph.empty ⟨0⟩ (Registry.declare {} (clock :: Graph.flow)) { capFactor := 1 }).afterAll
    [.addNode "OnTick", .addNode "Join", .addNode "Seed", .addEdge (ref 0) 0 (ref 1) 0,
      .addEdge (ref 1) 0 (ref 1) 1]

/-- The loop meets the cap, in both graphs. -/
theorem polling_exact_clockwork :
    clockwork.Roomy ∧
      (clockwork.polled Graph.quiet).seeds = [⟨0⟩, ⟨2⟩] ∧
      ((clockwork.polled Graph.quiet).tick Graph.quiet).result =
        .ok ⟨3, [⟨⟨1⟩, "Join", .overflow 3⟩], true⟩ ∧
      (((clockwork.polled Graph.quiet).trace Graph.quiet).toList.map (·.node)).take 2 =
        [⟨0⟩, ⟨2⟩] ∧
      (update ⟨[clockwork, clockwork]⟩ Graph.quiet).result.toOption.map (·.overflows) = some 2 ∧
      List.Forall₂ (fun _ tick => tick.1.RunsOnce tick.2 ⟨0⟩ ∧ tick.1.RunsOnce tick.2 ⟨2⟩)
        [clockwork, clockwork] (ticks Graph.quiet [clockwork, clockwork]) := by
  have roomy : clockwork.Roomy :=
    ⟨(Graph.Reachable.empty _ _ _).afterAll _, by decide +kernel, by decide +kernel⟩
  have seeds : (clockwork.polled Graph.quiet).seeds = [⟨0⟩, ⟨2⟩] := by with_unfolding_all rfl
  have looped : ((clockwork.polled Graph.quiet).tick Graph.quiet).result =
    .ok ⟨3, [⟨⟨1⟩, "Join", .overflow 3⟩], true⟩ := by with_unfolding_all rfl
  have overflows : (update ⟨[clockwork, clockwork]⟩ Graph.quiet).result.toOption.map (·.overflows) =
    some 2 := by with_unfolding_all rfl
  obtain ⟨first, updates⟩ := polling_exact
  obtain ⟨_, _, seedsFirst⟩ := first _ Graph.quiet _ (roomy.polled Graph.quiet) looped
  rw [seeds] at seedsFirst
  cases ended : (update ⟨[clockwork, clockwork]⟩ Graph.quiet).result with
  | error failure =>
    rw [ended] at overflows
    cases overflows
  | ok summary =>
    have same : ∀ g ∈ [clockwork, clockwork], g = clockwork := by simp
    have all : ∀ g ∈ [clockwork, clockwork], g.Roomy := by simp [roomy]
    obtain ⟨_, _, each⟩ := updates ⟨[clockwork, clockwork]⟩ Graph.quiet summary all ended
    rw [← ended]
    refine ⟨roomy, seeds, looped, seedsFirst, overflows,
      ((List.forall₂_and_left _ _).mpr ⟨same, each⟩).imp ?_⟩
    rintro g tick ⟨rfl, once⟩
    exact ⟨once ⟨0⟩ _ rfl rfl, once ⟨2⟩ _ rfl rfl⟩

end Behavior

end Flowgraph
