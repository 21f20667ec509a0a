import Mathlib.Algebra.Order.BigOperators.Group.List
import Mathlib.Algebra.Order.Group.Nat
import Flowgraph.Proofs.Host.Timetable

namespace Flowgraph

/-- Whether a fault says that a tick has met its cap. -/
def FaultKind.isOverflow : FaultKind → Bool
  | .overflow _ => true
  | _ => false

namespace Graph

variable {g : Graph} {scene : Scene} {id : NodeId} {node : Node} {report : TickReport}

/-- What the report of a completed tick says of its runs. -/
structure Accounted (g : Graph) (scene : Scene) (report : TickReport) : Prop where
  done : (g.tick scene).result = .ok report
  runs : report.executions = (g.trace scene).size
  within : report.executions ≤ g.cap
  overflowed : report.overflowed = true ↔ (g.propagate scene).2 = .capped
  /-- At the cap one fault is added to those of the runs. -/
  faults : ∃ last, report.faults = (g.trace scene).toList.filterMap g.faultOf? ++ last ∧
    last.length = (if report.overflowed then 1 else 0) ∧
      ∀ fault ∈ last, fault.kind = .overflow g.cap
  /-- No run faults like this. -/
  met : ∀ fault ∈ (g.trace scene).toList.filterMap g.faultOf?, fault.kind.isOverflow = false

theorem isOverflow_of_trace (whole : g.Integrity) {fault : NodeFault}
    (met : fault ∈ (g.trace scene).toList.filterMap g.faultOf?) :
    fault.kind.isOverflow = false := by
  obtain ⟨e, member, found⟩ := List.mem_filterMap.mp met
  obtain ⟨node, _, admitted⟩ := admits_of_trace whole (Array.mem_toList_iff.mp member)
  rw [(faultOf?_eq_some.mp found).kind] at admitted
  generalize fault.kind = kind at admitted
  cases admitted with
  | mismatch => rfl
  | failed => rfl

/-- The report of a tick accounts for its runs. -/
theorem accounted_of_tick (whole : g.Integrity) (done : (g.tick scene).result = .ok report) :
    g.Accounted scene report := by
  obtain ⟨p, last⟩ := lastStage_of_tick whole done
  have faults : p.faults.toList = (g.trace scene).toList.filterMap g.faultOf? := by
    rw [last.stage.faults whole, last.trace]
  refine
    { done
      runs := (last.size_trace whole).symm
      within := last.executions ▸ last.stage.executions_le
      overflowed := ?_
      faults := ?_
      met := fun fault => isOverflow_of_trace whole }
  · cases ended : report.overflowed with
    | false => simp [last.stage.propagate_of_settled (last.settled ended)]
    | true =>
      obtain ⟨waiting, spent⟩ := last.capped ended
      simp [last.stage.propagate_of_capped spent waiting]
  · rw [← faults]
    cases ended : report.overflowed with
    | false => exact ⟨[], by simpa using last.faults_of_settled ended, rfl, by simp⟩
    | true =>
      obtain ⟨id, _, node, _, _, faults⟩ := last.faults_of_capped whole ended
      exact ⟨_, faults, rfl, by simp⟩

/-- The faults of a tick that speak of its cap are as many as it has overflowed times. -/
theorem Accounted.countP_faults (accounted : g.Accounted scene report) :
    report.faults.countP (·.kind.isOverflow) = if report.overflowed then 1 else 0 := by
  obtain ⟨last, faults, length, kinds⟩ := accounted.faults
  have others : ((g.trace scene).toList.filterMap g.faultOf?).countP (·.kind.isOverflow) = 0 :=
    List.countP_eq_zero.mpr fun fault member => by simp [accounted.met fault member]
  have all : last.countP (·.kind.isOverflow) = last.length :=
    List.countP_eq_length.mpr fun fault member => by simp [kinds fault member, FaultKind.isOverflow]
  rw [faults, List.countP_append, others, all, length, Nat.zero_add]

/-- An update tells the nodes that wait for the clock how long the tick is. -/
theorem node?_polled_of_clock (idle : g.phase = .idle) (live : g.node? id = some node)
    (event : node.template.isEvent = true) (name : node.template.name = Builtin.onTick)
    (scene : Scene) : (g.polled scene).node? id = some (node.arm [.float scene.world.delta]) := by
  have phase : g.activateSources.graph.phase = g.phase :=
    Call.activateSources.phase_after (fun ticks => ticks) g
  have still : g.activateSources.graph.isIdle = true := by simp [isIdle, phase, idle]
  have read := node?_notifyWhere g.activateSources.graph
    ⟨(·.name == Builtin.onTick), [.float scene.world.delta]⟩ id
  rw [node?_activateSources, live, still] at read
  refine read.trans ?_
  simp [isSource, Notification.matches, event, name]

end Graph

namespace Timetable

variable {table : Timetable} {b : Behavior} {entity : Entity} {config : HostConfig}

/-- The graph that ticks in a place. -/
def polled (table : Timetable) (config : HostConfig) (tick position : Nat) : Graph :=
  (table.graph tick position).polled (table.scene config tick position)

/-- All places of a run, row by row. -/
def places (b : Behavior) (config : HostConfig) : List (Nat × Nat) :=
  List.range config.ticks.toNat ×ˢ List.range b.graphs.length

theorem mem_places {tick position : Nat} :
    (tick, position) ∈ places b config ↔
      tick < config.ticks.toNat ∧ position < b.graphs.length := by
  rw [places, List.mem_product, List.mem_range, List.mem_range]

/-- Where each report has a fault that speaks of the cap for having overflowed, so have all. -/
theorem countP_total {all : List (Nat × Nat)}
    (each : ∀ place ∈ all, (table.report place.1 place.2).faults.countP (·.kind.isOverflow) =
      if (table.report place.1 place.2).overflowed then 1 else 0) :
    (table.total all).faults.countP (·.fault.kind.isOverflow) = (table.total all).overflows := by
  induction all with
  | nil => rfl
  | cons place rest ih =>
    obtain ⟨here, others⟩ := List.forall_mem_cons.mp each
    have later := ih others
    simp only [total] at later
    simp only [total, List.flatMap_cons, List.countP_append, List.countP_map, List.countP_cons,
      Function.comp_def, later, here, Nat.add_comm]

/-- Over all places, what the graphs are bounded by is counted once for each tick. -/
theorem sum_places (bound : Nat → Nat) :
    ((places b config).map fun place => bound place.2).sum =
      config.ticks.toNat * ((List.range b.graphs.length).map bound).sum := by
  have rows (ticks : List Nat) :
      ((ticks ×ˢ List.range b.graphs.length).map fun place => bound place.2).sum =
        ticks.length * ((List.range b.graphs.length).map bound).sum := by
    induction ticks with
    | nil => simp
    | cons tick rest ih =>
      rw [List.product_cons, List.map_append, List.sum_append, ih, List.map_map, List.length_cons,
        Nat.succ_mul, Nat.add_comm]
      rfl
  rw [places, rows, List.length_range]

section

variable (reach : ∀ g ∈ b.graphs, g.Reachable) (idle : ∀ g ∈ b.graphs, g.phase = .idle)
  (contained : ∀ g ∈ b.graphs, g.Contained) (entity : Entity) (config : HostConfig)
include reach idle contained

/-- Each report in the timetable of a run accounts for the tick in its place. -/
theorem accounted_make {tick position : Nat} (early : tick < config.ticks.toNat)
    (inside : position < b.graphs.length) :
    let table := make b entity config
    (table.polled config tick position).Accounted (table.scene config tick position)
      (table.report tick position) := by
  have ticked := ticked_make reach idle contained entity config tick inside
  have done := (of_make reach idle contained entity config).done tick early position inside
  rw [(Behavior.updateGraph_eq_tick ticked.idle _).1] at done
  exact Graph.accounted_of_tick (ticked.reach.polled _).integrity done

/-- After so many rows the clock of each graph has gone on by as many ticks. -/
theorem ticks_row (tick : Nat) :
    ((List.range b.graphs.length).map ((make b entity config).graph tick)).map (·.ticks) =
      b.graphs.map (·.ticks + tick) := by
  apply List.ext_getElem
  · simp
  · intro position _ inside
    rw [List.length_map] at inside
    simp only [List.getElem_map, List.getElem_range]
    exact (ticked_make reach idle contained entity config tick inside).ticks

/-- In no place does a graph run more often than its cap allows, which is that of the first row. -/
theorem executions_total_le :
    ((make b entity config).total (places b config)).executions ≤
      config.ticks.toNat * (b.graphs.map (·.cap)).sum := by
  let table := make b entity config
  have of : table.Of b entity config := of_make reach idle contained entity config
  have bounds : b.graphs.map (·.cap) =
      (List.range b.graphs.length).map fun position => (table.graph 0 position).cap :=
    (congrArg (List.map (·.cap)) of.graphs).trans List.map_map
  rw [bounds, ← sum_places]
  refine List.sum_le_sum fun (tick, position) member => ?_
  obtain ⟨early, inside⟩ := mem_places.mp member
  have program (tick : Nat) := (ticked_make reach idle contained entity config tick inside).program
  have same : (table.polled config tick position).program = (table.graph 0 position).program :=
    (Graph.program_polled _ _).trans ((program tick).trans (program 0).symm)
  exact Graph.cap_of_program same ▸
    (accounted_make reach idle contained entity config early inside).within

end

end Timetable

namespace Behavior

open Timetable (places)

/-- A run of idle graphs that contain their crashes goes through, by its timetable, in which each
graph is taken from tick to tick and the entity from graph to graph and, once after the last of
them, on. What the run reports is counted place by place: the executions, which are no more than the
caps of all graphs allow in each tick; the faults in the order of the places, with the place of
each; and the overflows, which are the ticks that met their cap and as many as the faults that say
so. The clock of each graph has gone on by the number of ticks. In each place the graph ticks in a
world that has the number of the tick, and its nodes that wait for the clock have been told how long
it is. -/
theorem run_accounted {b : Behavior} (reach : ∀ g ∈ b.graphs, g.Reachable)
    (idle : ∀ g ∈ b.graphs, g.phase = .idle) (contained : ∀ g ∈ b.graphs, g.Contained)
    (entity : Entity) (config : HostConfig) :
    ∃ (report : RunReport) (final : RunState) (table : Timetable),
      b.run entity config = .ok report ∧
      RunState.ticks (PressedKeys.ofList config.keys) config.delta config.ticks.toNat 0
        { behavior := b, entity } = .ok final ∧
      table.Of b entity config ∧
      final.behavior.graphs = (List.range b.graphs.length).map (table.graph config.ticks.toNat) ∧
      final.behavior.graphs.map (·.ticks) = b.graphs.map (·.ticks + config.ticks.toNat) ∧
      report.entity = table.entity config.ticks.toNat 0 ∧
      report.exports = final.behavior.exports ∧
      report.ticks = config.ticks ∧
      report.executions = ((places b config).map fun (tick, position) =>
        (table.report tick position).executions).sum ∧
      report.executions ≤ config.ticks.toNat * (b.graphs.map (·.cap)).sum ∧
      report.faults = ((places b config).flatMap fun (tick, position) =>
        (table.report tick position).faults.map (⟨.ofNat tick, position, ·⟩)) ∧
      report.overflows = (places b config).countP (fun (tick, position) =>
        (table.report tick position).overflowed) ∧
      report.overflows = report.faults.countP (·.fault.kind.isOverflow) ∧
      ∀ tick < config.ticks.toNat, ∀ position < b.graphs.length,
        (table.polled config tick position).Accounted (table.scene config tick position)
          (table.report tick position) ∧
        (table.scene config tick position).world.tick.toNat = tick ∧
        (table.scene config tick position).world.delta = config.delta ∧
        ∀ id node, (table.graph tick position).node? id = some node →
          node.template.isEvent = true → node.template.name = Builtin.onTick →
            (table.polled config tick position).node? id = some (node.arm [.float config.delta]) := by
  let table := Timetable.make b entity config
  have of : table.Of b entity config := Timetable.of_make reach idle contained entity config
  have start : table.At b [] 0 { behavior := b, entity } := ⟨of.graphs, rfl, rfl, rfl, rfl⟩
  have all : 0 + config.ticks.toNat ≤ config.ticks.toNat := by omega
  obtain ⟨final, done, ended⟩ := start.ticks of all
  have number : UInt64.ofNat 0 = 0 := rfl
  rw [number] at done
  rw [Nat.zero_add, List.nil_append, ← List.range_eq_range'] at ended
  have each {tick position : Nat} (early : tick < config.ticks.toNat)
      (inside : position < b.graphs.length) :=
    Timetable.accounted_make reach idle contained entity config early inside
  refine ⟨_, final, table, by simp only [Behavior.run, done]; rfl, done, of, ended.graphs, ?_,
    ended.entity, rfl, rfl, ended.executions, ?_, ended.faults, ended.overflows, ?_, ?_⟩
  · rw [ended.graphs]
    exact Timetable.ticks_row reach idle contained entity config config.ticks.toNat
  · simp only [ended.executions]
    exact Timetable.executions_total_le reach idle contained entity config
  · simp only [ended.overflows, ended.faults]
    refine (Timetable.countP_total fun (tick, position) member => ?_).symm
    obtain ⟨early, inside⟩ := Timetable.mem_places.mp member
    exact (each early inside).countP_faults
  · intro tick early position inside
    have small : tick < UInt64.size := Nat.lt_trans early config.ticks.toNat_lt
    have here := (Timetable.ticked_make reach idle contained entity config tick inside).idle
    exact ⟨each early inside, UInt64.toNat_ofNat_of_lt' small, rfl, fun id node live event name =>
      Graph.node?_polled_of_clock here live event name _⟩

/-- Two graphs that meet their caps in every tick. -/
def pair : Behavior := ⟨[clockwork, Graph.hurried]⟩

def shift : HostConfig := { ticks := 2, delta := 0.5 }

theorem contained_clockwork : clockwork.Contained := by
  refine Graph.contained_of_declared ((Graph.Reachable.empty _ _ _).afterAll _)
    (Graph.registry_afterAll _ _) fun d declared evaluator found inputs context => ?_
  simp only [Graph.flow, List.mem_cons, List.not_mem_nil, or_false] at declared
  rcases declared with rfl | rfl | rfl | rfl
  · cases found
  · cases found
  all_goals
    cases found
    exact fun escaped => by cases escaped

/-- In two ticks both graphs overflow twice, each time with one fault that says so, and one of them
has another fault each time. -/
theorem run_accounted_pair :
    (∀ g ∈ pair.graphs, g.Reachable ∧ g.phase = .idle ∧ g.Contained) ∧
      ∃ (report : RunReport) (final : RunState) (table : Timetable),
        pair.run Graph.quiet.entity shift = .ok report ∧
        table.Of pair Graph.quiet.entity shift ∧
        report.executions = 14 ∧ report.executions ≤ 2 * (3 + 4) ∧
        report.faults.length = 6 ∧ report.overflows = 4 ∧
        report.faults.countP (·.fault.kind.isOverflow) = 4 ∧
        (places pair shift).countP (fun (tick, position) =>
          (table.report tick position).overflowed) = 4 ∧
        final.behavior.graphs.map (·.ticks) = [2, 2] := by
  have each : ∀ g ∈ pair.graphs, g.Reachable ∧ g.phase = .idle ∧ g.Contained := by
    simp only [pair, List.forall_mem_cons, List.not_mem_nil, false_imp_iff, implies_true, and_true]
    exact ⟨⟨(Graph.Reachable.empty _ _ _).afterAll _, rfl, contained_clockwork⟩,
      Graph.reachable_hurried, rfl, Graph.contained_hurried⟩
  have counted : ((pair.run Graph.quiet.entity shift).toOption.map fun report =>
      (report.executions, report.overflows, report.faults.length)) = some (14, 4, 6) := by
    decide +kernel
  obtain ⟨report, final, table, done, _, of, _, clocks, _, _, _, _, within, _, overflowed, named, _⟩ :=
    run_accounted (fun g member => (each g member).1) (fun g member => (each g member).2.1)
      (fun g member => (each g member).2.2) Graph.quiet.entity shift
  rw [done] at counted
  obtain ⟨executions, overflows, faults⟩ : report.executions = 14 ∧ report.overflows = 4 ∧
      report.faults.length = 6 := by simpa [Except.toOption] using counted
  exact ⟨each, report, final, table, done, of, executions, within, faults, overflows,
    named.symm.trans overflows, overflowed.symm.trans overflows, clocks⟩

end Behavior

end Flowgraph
