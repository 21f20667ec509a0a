import Mathlib.Data.List.ProdSigma
import Flowgraph.Host.Run
import Flowgraph.Proofs.Host.Polling
import Flowgraph.Proofs.Tick.Overflow

namespace Flowgraph

open Behavior (updateGraph updateFrom updateGraph_eq_tick)

/-- The world in a tick of a run. -/
def HostConfig.world (config : HostConfig) (tick : UInt64) : World :=
  { tick, delta := config.delta, elapsed := Number.ofInt tick.toNat * config.delta }

namespace Graph

variable {first g : Graph} {scene : Scene} {count : Nat}

theorem Contained.of_program (contained : g.Contained) {h : Graph} (same : h.program = g.program) :
    h.Contained := by
  intro id node live
  obtain ⟨twin, atId, _, template⟩ := node?_of_skeleton (skeleton_eq_of_program same) live
  rw [← template]
  exact contained id twin atId

/-- Where every declared template contains its crashes, so does every graph made of them. -/
theorem contained_of_declared {declarations : List Template.Declaration} (reach : g.Reachable)
    (registry : g.registry = Registry.declare {} declarations)
    (each : ∀ d ∈ declarations, d.template.Contained) : g.Contained := by
  intro id node live
  rcases Registry.mem_templates_declare _ (registry ▸ reach.registered live) with
    old | ⟨d, declared, template⟩
  · cases old
  · exact template ▸ each d declared

theorem cap_of_program {h : Graph} (same : h.program = g.program) : h.cap = g.cap := by
  have config : h.config = g.config := (congrArg Graph.config same :)
  have liveNodes : h.liveNodes = g.liveNodes := (congrArg Graph.liveNodes same :)
  rw [cap, cap, config, liveNodes]

/-- A graph after so many completed ticks. -/
structure Ticked (first : Graph) (count : Nat) (g : Graph) : Prop where
  reach : g.Reachable
  idle : g.phase = .idle
  program : g.program = first.program
  ticks : g.ticks = first.ticks + count

theorem Reachable.polled (reach : g.Reachable) (scene : Scene) : (g.polled scene).Reachable :=
  (reach.call .activateSources).call (.notifyTick scene.world.delta)

theorem clock_polled (g : Graph) (scene : Scene) :
    (g.polled scene).phase = g.phase ∧ (g.polled scene).ticks = g.ticks := by
  obtain ⟨phase, ticks⟩ := Call.activateSources.clock_after (fun ticks => ticks) g
  obtain ⟨toldPhase, toldTicks⟩ := (Call.notifyTick scene.world.delta).clock_after
    (fun ticks => ticks) (Call.activateSources.after g)
  exact ⟨toldPhase.trans phase, toldTicks.trans ticks⟩

/-- The update of a graph that contains its crashes completes one tick more. -/
theorem Ticked.update (ticked : first.Ticked count g) (contained : first.Contained)
    (scene : Scene) : ∃ report, (updateGraph g scene).result = .ok report ∧
      first.Ticked (count + 1) (updateGraph g scene).graph := by
  obtain ⟨result, graph, _⟩ := updateGraph_eq_tick ticked.idle scene
  obtain ⟨phase, ticks⟩ := g.clock_polled scene
  have reach := ticked.reach.polled scene
  have program := (g.program_polled scene).trans ticked.program
  obtain ⟨report, done⟩ := completes_of_contained reach.integrity (contained.of_program program)
    (phase.trans ticked.idle) scene
  obtain ⟨p, last⟩ := lastStage_of_tick reach.integrity done
  refine ⟨report, result.trans done, ?_⟩
  rw [graph]
  exact
    { reach := reach.call (.tick scene)
      idle := last.completed.phase
      program := (program_tick _ scene).trans program
      ticks := by rw [last.completed.ticks, ticks, ticked.ticks, Nat.add_assoc] }

end Graph

/-- The ticks of a run, by the number of the tick and the position of the graph. -/
structure Timetable where
  /-- The graph, as an update finds it. -/
  graph : Nat → Nat → Graph
  /-- The entity, as the graph finds it. -/
  entity : Nat → Nat → Entity
  report : Nat → Nat → TickReport

namespace Timetable

/-- What surrounds a graph in a tick. -/
def scene (table : Timetable) (config : HostConfig) (tick position : Nat) : Scene :=
  { entity := table.entity tick position
    keys := PressedKeys.ofList config.keys
    world := config.world (.ofNat tick) }

/-- A timetable of a run: an update takes the graphs from row to row and hands the entity on from
place to place, and once it is through all graphs the entity moves. -/
structure Of (table : Timetable) (b : Behavior) (entity : Entity) (config : HostConfig) : Prop where
  graphs : b.graphs = (List.range b.graphs.length).map (table.graph 0)
  entity : table.entity 0 0 = entity
  done : ∀ tick < config.ticks.toNat, ∀ position < b.graphs.length,
    (updateGraph (table.graph tick position) (table.scene config tick position)).result =
      .ok (table.report tick position)
  next : ∀ tick < config.ticks.toNat, ∀ position < b.graphs.length,
    (updateGraph (table.graph tick position) (table.scene config tick position)).graph =
      table.graph (tick + 1) position
  handed : ∀ tick < config.ticks.toNat, ∀ position < b.graphs.length,
    (updateGraph (table.graph tick position) (table.scene config tick position)).entity =
      table.entity tick (position + 1)
  moved : ∀ tick < config.ticks.toNat,
    (table.entity tick b.graphs.length).integrate config.delta = table.entity (tick + 1) 0

variable {table : Timetable} {b : Behavior} {entity : Entity} {config : HostConfig}

/-- The entity as an update hands it to the graph at each position. -/
def handOn (graphs : Nat → Graph) (scene : Scene) : Nat → Entity
  | 0 => scene.entity
  | position + 1 =>
    (updateGraph (graphs position) { scene with entity := handOn graphs scene position }).entity

/-- The graphs, and the entity, as each tick finds them. -/
def row (b : Behavior) (entity : Entity) (config : HostConfig) : Nat → (Nat → Graph) × Entity
  | 0 => (fun position => b.graphs[position]?.getD (.empty ⟨0⟩ {} {}), entity)
  | tick + 1 =>
    let (graphs, entity) := row b entity config tick
    let scene := ⟨entity, PressedKeys.ofList config.keys, config.world (.ofNat tick)⟩
    (fun position =>
        (updateGraph (graphs position) { scene with entity := handOn graphs scene position }).graph,
      (handOn graphs scene b.graphs.length).integrate config.delta)

/-- The timetable that comes of updating graphs as configured. -/
def make (b : Behavior) (entity : Entity) (config : HostConfig) : Timetable :=
  let scene (tick : Nat) : Scene :=
    ⟨(row b entity config tick).2, PressedKeys.ofList config.keys, config.world (.ofNat tick)⟩
  let entityAt (tick position : Nat) := handOn (row b entity config tick).1 (scene tick) position
  { graph := fun tick => (row b entity config tick).1
    entity := entityAt
    report := fun tick position =>
      (updateGraph ((row b entity config tick).1 position)
        { scene tick with entity := entityAt tick position }).result.toOption.getD
          ⟨0, [], false⟩ }

section

variable (reach : ∀ g ∈ b.graphs, g.Reachable) (idle : ∀ g ∈ b.graphs, g.phase = .idle)
  (contained : ∀ g ∈ b.graphs, g.Contained) (entity : Entity) (config : HostConfig)
include reach idle contained

/-- Each place of the timetable has its graph after as many ticks as there are rows above. -/
theorem ticked_make (tick : Nat) {position : Nat} (inside : position < b.graphs.length) :
    b.graphs[position].Ticked tick ((make b entity config).graph tick position) := by
  have member := List.getElem_mem inside
  induction tick with
  | zero =>
    have first : (make b entity config).graph 0 position = b.graphs[position] := by
      simp [make, row, inside]
    rw [first]
    exact ⟨reach _ member, idle _ member, rfl, rfl⟩
  | succ tick ih =>
    obtain ⟨report, _, next⟩ := ih.update (contained _ member)
      ((make b entity config).scene config tick position)
    exact next

/-- Graphs that contain their crashes get through every tick of a run. -/
theorem of_make : (make b entity config).Of b entity config where
  graphs := by
    apply List.ext_getElem
    · simp
    · intro position inside _
      simp [make, row, inside]
  entity := rfl
  done tick _ position inside := by
    obtain ⟨report, done, _⟩ := (ticked_make reach idle contained entity config tick inside).update
      (contained _ (List.getElem_mem inside)) ((make b entity config).scene config tick position)
    have same : (make b entity config).report tick position =
      (updateGraph ((make b entity config).graph tick position)
        ((make b entity config).scene config tick position)).result.toOption.getD
          ⟨0, [], false⟩ := rfl
    rw [same, done]
    rfl
  next _ _ _ _ := rfl
  handed _ _ _ _ := rfl
  moved _ _ := rfl

end

/-- What is reported in the given places, all in all. -/
def total (table : Timetable) (places : List (Nat × Nat)) : UpdateSummary where
  executions := (places.map fun (tick, position) => (table.report tick position).executions).sum
  faults := places.flatMap fun (tick, position) =>
    (table.report tick position).faults.map (⟨.ofNat tick, position, ·⟩)
  overflows := places.countP fun (tick, position) => (table.report tick position).overflowed

theorem total_cons (tick position : Nat) (places : List (Nat × Nat)) :
    table.total ((tick, position) :: places) =
      UpdateSummary.ofReport (.ofNat tick) position (table.report tick position) ++
        table.total places := by
  change _ = UpdateSummary.append _ _
  simp only [total, UpdateSummary.append, UpdateSummary.ofReport, List.map_cons, List.sum_cons,
    List.flatMap_cons, List.countP_cons, Nat.add_comm]

/-- A row of the timetable is an update. -/
theorem Of.update (of : table.Of b entity config) {tick : Nat} (early : tick < config.ticks.toNat)
    {position count : Nat} (fits : position + count ≤ b.graphs.length) :
    let graphs := (List.range' position count).map (table.graph tick)
    let reply := updateFrom (table.scene config tick position) position graphs
    reply.result = .ok (table.total ((List.range' position count).map (tick, ·))) ∧
      reply.graphs = (List.range' position count).map (table.graph (tick + 1)) ∧
      reply.entity = table.entity tick (position + count) := by
  induction count generalizing position with
  | zero => exact ⟨rfl, rfl, rfl⟩
  | succ count ih =>
    have inside : position < b.graphs.length := by omega
    have later : position + 1 + count ≤ b.graphs.length := by omega
    obtain ⟨result, graphs, entity⟩ := ih later
    have onward : { table.scene config tick position with
        entity := table.entity tick (position + 1) } =
      table.scene config tick (position + 1) := rfl
    simp only [List.range'_succ, List.map_cons, updateFrom, of.done tick early position inside,
      of.next tick early position inside, of.handed tick early position inside, onward]
    refine ⟨?_, ?_, ?_⟩
    · rw [result, total_cons]
      rfl
    · rw [graphs]
    · rw [entity, Nat.add_assoc, Nat.add_comm 1]

theorem total_append (earlier later : List (Nat × Nat)) :
    table.total (earlier ++ later) = table.total earlier ++ table.total later := by
  change _ = UpdateSummary.append _ _
  simp only [total, UpdateSummary.append, List.map_append, List.sum_append, List.flatMap_append,
    List.countP_append]

/-- A run at the beginning of a tick, with the given places behind it. -/
structure At (table : Timetable) (b : Behavior) (places : List (Nat × Nat)) (tick : Nat)
    (state : RunState) : Prop where
  graphs : state.behavior.graphs = (List.range b.graphs.length).map (table.graph tick)
  entity : state.entity = table.entity tick 0
  executions : state.executions = (table.total places).executions
  faults : state.faults.toList = (table.total places).faults
  overflows : state.overflows = (table.total places).overflows

/-- A tick of a run puts the places of its row behind it. -/
theorem At.next {places : List (Nat × Nat)} {tick : Nat} {state : RunState}
    (reached : table.At b places tick state) (of : table.Of b entity config)
    (early : tick < config.ticks.toNat) :
    ∃ after, state.tick (PressedKeys.ofList config.keys) config.delta (.ofNat tick) = .ok after ∧
      table.At b (places ++ (List.range b.graphs.length).map (tick, ·)) (tick + 1) after := by
  have all : 0 + b.graphs.length ≤ b.graphs.length := by omega
  obtain ⟨result, graphs, entity⟩ := of.update early all
  have moved := of.moved tick early
  simp only [← List.range_eq_range', ← reached.graphs, Nat.zero_add] at result graphs entity
  simp only [scene, ← reached.entity, HostConfig.world] at result graphs entity
  refine ⟨_, by simp only [RunState.tick, Behavior.update, result]; rfl, ?_⟩
  have sum := @total_append table places ((List.range b.graphs.length).map (tick, ·))
  exact
    { graphs := graphs
      entity := by simp only [entity, moved]
      executions := by rw [sum, reached.executions]; rfl
      faults := by rw [sum, Array.toList_append, reached.faults]; rfl
      overflows := by rw [sum, reached.overflows]; rfl }

/-- So many ticks put their rows behind the run. -/
theorem At.ticks {places : List (Nat × Nat)} {tick count : Nat} {state : RunState}
    (reached : table.At b places tick state) (of : table.Of b entity config)
    (within : tick + count ≤ config.ticks.toNat) :
    ∃ final, RunState.ticks (PressedKeys.ofList config.keys) config.delta count (.ofNat tick) state =
        .ok final ∧
      table.At b (places ++ List.range' tick count ×ˢ List.range b.graphs.length) (tick + count)
        final := by
  induction count generalizing places tick state with
  | zero => exact ⟨state, rfl, by simpa using reached⟩
  | succ count ih =>
    obtain ⟨after, done, later⟩ := reached.next of (by omega)
    obtain ⟨final, rest, ended⟩ := ih later (by omega)
    have number : (UInt64.ofNat tick) + 1 = UInt64.ofNat (tick + 1) :=
      (UInt64.ofNat_add tick 1).symm
    refine ⟨final, by simp only [RunState.ticks, done, number, rest], ?_⟩
    rw [List.range'_succ, List.product_cons, ← List.append_assoc, Nat.add_comm count,
      ← Nat.add_assoc]
    exact ended

end Timetable

end Flowgraph
