import Flowgraph.Proofs.Saved.RoundTrip
import Flowgraph.Proofs.Tick.Apart

namespace Flowgraph

/-- No evaluation of a template depends on anything of the entity but what evaluators keep. -/
def Template.Heedless (t : Template) : Prop :=
  ∀ evaluator, t.evaluator = some evaluator → ∀ inputs (context : EvaluationContext) entity,
    entity.memory = context.entity.memory →
      evaluator inputs { context with entity } = evaluator inputs context

namespace Graph

variable {part : NodeId → Bool} {g : Graph}

/-- The graph in which no node outside the part is due. -/
def only (g : Graph) (part : NodeId → Bool) : Graph :=
  { g with
    nodes := g.nodes.map
      (·.map fun node => if part node.id then node else { node with active := false }) }

theorem program_only (g : Graph) (part : NodeId → Bool) : (g.only part).program = g.program := by
  apply strip_mapNodes
  intro node
  split <;> rfl

/-- Putting the other nodes to rest leaves the part as it is. -/
theorem Integrity.agreeOn_only (whole : g.Integrity) (part : NodeId → Bool) :
    AgreeOn part g (g.only part) := by
  refine ⟨g.program_only part, fun id inside => ?_⟩
  rw [only, node?_mapNodes]
  cases live : g.node? id with
  | none => rfl
  | some node => simp only [whole.own_id id node live, inside, if_true, Option.map_some]

/-- What is due at the start with the part alone is what is due of the part. -/
theorem seeds_only (g : Graph) (part : NodeId → Bool) :
    ((g.only part).nodeList.filter (·.active)).map (·.id) =
      ((g.nodeList.filter (·.active)).map (·.id)).filter part := by
  rw [only, nodeList_mapNodes, List.filter_map, List.map_map, List.filter_map, List.filter_filter]
  congr 1
  · funext node
    simp only [Function.comp_apply]
    split <;> rfl
  · congr 1
    funext node
    simp only [Function.comp_apply]
    cases part node.id <;> rfl

theorem Integrity.apart_start (whole : g.Integrity) (part : NodeId → Bool) (entity : Entity) :
    Propagation.Apart part (Propagation.start g entity)
      (Propagation.start (g.only part) entity) := by
  have agree := whole.agreeOn_only part
  exact ⟨⟨agree.program, agree.nodes⟩, rfl, g.seeds_only part, rfl, rfl⟩

/-- Nodes between which and a part there is no edge do not influence the part, if their evaluators
neither change the entity nor keep anything. What the part does in a tick is at least as much, run
for run, if all other nodes are at rest; and if the tick completes below its cap, it is the same:
the runs with their inputs and outcomes, the faults, and the nodes of the part afterwards. -/
theorem isolation (reach : g.Reachable) (idle : g.phase = .idle)
    (closed : ∀ id edge, g.edge? id = some edge → part edge.source = part edge.target)
    (inert : ∀ id node, g.node? id = some node → part id = false → node.template.Inert)
    (forgetful : ∀ id node, g.node? id = some node → part id = false → node.template.Forgetful)
    (scene : Scene) :
    (g.trace scene).toList.filter (part ·.node) <+: ((g.only part).trace scene).toList ∧
    ∀ report, (g.tick scene).result = .ok report → report.overflowed = false →
      ((g.only part).trace scene).toList = (g.trace scene).toList.filter (part ·.node) ∧
      (∃ alone, ((g.only part).tick scene).result = .ok alone ∧ alone.overflowed = false ∧
        alone.faults = report.faults.filter (part ·.node)) ∧
      ∀ id, part id = true →
        ((g.only part).tick scene).graph.node? id = (g.tick scene).graph.node? id := by
  have whole := reach.integrity
  have severed : (Propagation.start g scene.entity).graph.Severed part :=
    Severed.of_program ⟨whole, closed, inert, forgetful⟩ rfl
  obtain ⟨reached, apart, ended⟩ := (whole.apart_start part scene.entity).advance severed
    scene.keys scene.world (Nat.le_refl g.cap)
  change (g.only part).propagate scene = (reached, (g.propagate scene).2) ∨
    (g.propagate scene).2 ≠ .settled ∧ ∃ left,
      (g.only part).propagate scene = reached.advance scene.keys scene.world left at ended
  change Propagation.Apart part (g.propagate scene).1 reached at apart
  have ticked := tick_of_idle idle scene
  have tickedAlone := tick_of_idle (g := g.only part) idle scene
  unfold trace
  constructor
  · rw [← apart.trace]
    rcases ended with same | ⟨_, left, further⟩
    · simp only [same, List.prefix_rfl]
    · rw [further]
      exact reached.prefix_advance scene.keys scene.world left
  intro report done below
  cases ran : g.propagate scene with
  | mk p ending =>
    rw [ran] at ticked ended apart
    cases ending with
    | settled =>
      simp only at ticked apart
      have same : (g.only part).propagate scene = (reached, .settled) := by
        rcases ended with same | ⟨unsettled, _⟩
        · exact same
        · exact absurd rfl unsettled
      rw [same] at tickedAlone ⊢
      rw [ticked] at done ⊢
      rw [tickedAlone]
      cases done
      exact ⟨apart.trace, ⟨_, rfl, rfl, apart.faults⟩, apart.graph.nodes⟩
    | capped =>
      rw [ticked] at done
      cases done
      cases below
    | escaped =>
      rw [ticked] at done
      cases done

theorem inert_flow {t : Template} (member : t ∈ (Registry.declare {} flow).templates) :
    t.Inert ∧ t.Forgetful := by
  rcases Registry.mem_templates_declare flow member with old | ⟨d, declared, rfl⟩
  · cases old
  · simp only [flow, List.mem_cons, List.not_mem_nil, or_false] at declared
    rcases declared with rfl | rfl | rfl
    · exact ⟨fun _ found => (by cases found), fun _ found => (by cases found)⟩
    · exact ⟨fun _ found _ _ => (by cases found; rfl), fun _ found _ _ => (by cases found; rfl)⟩
    · exact ⟨fun _ found _ _ => (by cases found; rfl), fun _ found _ _ => (by cases found; rfl)⟩

/-- Two parts with a seed each, both of which are due. -/
def islands : Graph :=
  let ref (slot : Nat) : NodeRef := ⟨⟨0⟩, ⟨slot⟩⟩
  (empty ⟨0⟩ (Registry.declare {} flow) {}).afterAll
    [.addNode "Seed", .addNode "Relay", .addNode "Join", .addEdge (ref 0) 0 (ref 2) 0,
      .addEdge (ref 0) 0 (ref 1) 0, .addEdge (ref 1) 0 (ref 2) 1, .activate (ref 0),
      .addNode "Seed", .addNode "Relay", .addEdge (ref 3) 0 (ref 4) 0, .activate (ref 3)]

/-- The nodes of the older part. -/
def older (id : NodeId) : Bool := id.index < 3

theorem isolation_islands :
    islands.Reachable ∧ (islands.trace quiet).toList.map (·.node.index) = [0, 3, 2, 1, 4, 2] ∧
      (∀ edge ∈ islands.wires, older edge.source = older edge.target) ∧
      (∀ id node, islands.node? id = some node →
        node.template.Inert ∧ node.template.Forgetful) ∧
      (islands.tick quiet).result = .ok ⟨6, [], false⟩ ∧
      ((islands.only older).trace quiet).toList.map (·.node.index) = [0, 2, 1, 2] ∧
      ∃ alone, ((islands.only older).tick quiet).result = .ok alone ∧ alone.overflowed = false := by
  have reach : islands.Reachable := (Reachable.empty _ _ _).afterAll _
  have registry : islands.registry = Registry.declare {} flow := registry_afterAll _ _
  have apart : ∀ edge ∈ islands.wires, older edge.source = older edge.target := by decide +kernel
  have inert (id : NodeId) (node : Node) (live : islands.node? id = some node) :
      node.template.Inert ∧ node.template.Forgetful := by
    have member := reach.registered live
    rw [registry] at member
    exact inert_flow member
  have done : (islands.tick quiet).result = .ok ⟨6, [], false⟩ := rfl
  obtain ⟨_, same⟩ := isolation reach rfl
    (fun id edge live => apart edge (mem_wires.mpr ⟨id, live⟩))
    (fun id node live _ => (inert id node live).1) (fun id node live _ => (inert id node live).2)
    quiet
  obtain ⟨trace, ⟨alone, completed, below, _⟩, _⟩ := same _ done rfl
  have order : (islands.trace quiet).toList.map (·.node.index) = [0, 3, 2, 1, 4, 2] := by
    decide +kernel
  have orderAlone : ((islands.only older).trace quiet).toList.map (·.node.index) = [0, 2, 1, 2] := by
    rw [trace]
    decide +kernel
  exact ⟨reach, order, apart, inert, done, orderAlone, alone, completed, below⟩

/-- Counts its evaluations. -/
def tally : Template.Declaration :=
  .plain "flow" "Tally" [] [⟨"count", .int, none⟩]
    (fun _ context =>
      let count := ((Dictionary.get? context.entity.memory "count").bind Value.asInt?).getD 0
      { outcome := .results [⟨.int count, false⟩]
        memory := some (Dictionary.insert "count" (.int (count + 1)) context.entity.memory) })
    false

/-- Crashes in a way that the running node cannot contain. -/
def mine : Template.Declaration :=
  .plain "flow" "Mine" [] [] (fun _ _ => { outcome := .escaped }) false

/-- Two nodes without an edge, both due. -/
def pair (older newer : Template.Declaration) : Graph :=
  (empty ⟨0⟩ (Registry.declare {} [older, newer]) {}).afterAll
    [.addNode older.template.name, .addNode newer.template.name, .activate ⟨⟨0⟩, ⟨0⟩⟩,
      .activate ⟨⟨0⟩, ⟨1⟩⟩]

def tallies : Graph := pair tally tally

def mined : Graph := pair mine tally

/-- The newer of two nodes. -/
def newer (id : NodeId) : Bool := id.index = 1

theorem reachable_pair (older newer : Template.Declaration) : (pair older newer).Reachable :=
  (Reachable.empty _ _ _).afterAll _

theorem detached_pair {older newer : Template.Declaration}
    (each : ∀ d ∈ [older, newer], d.template.Inert ∧ d.template.Heedless) (id : NodeId)
    (node : Node) (live : (pair older newer).node? id = some node) :
    node.template.Inert ∧ node.template.Heedless := by
  have registry : (pair older newer).registry = Registry.declare {} [older, newer] :=
    registry_afterAll _ _
  have member := (reachable_pair older newer).registered live
  rw [registry] at member
  rcases Registry.mem_templates_declare _ member with old | ⟨d, declared, same⟩
  · cases old
  · exact same ▸ each d declared

theorem detached_tally : tally.template.Inert ∧ tally.template.Heedless := by
  constructor
  · intro evaluator found inputs context
    cases found
    rfl
  · intro evaluator found inputs context entity same
    cases found
    simp only [same]

theorem detached_mine : mine.template.Inert ∧ mine.template.Heedless := by
  constructor
  · intro evaluator found inputs context
    cases found
    rfl
  · intro evaluator found inputs context entity _
    cases found
    rfl

/-- Parts may disturb each other though no evaluator touches the entity: by what they keep, and by a
crash that cuts the tick short. -/
theorem isolation_disturbed :
    (tallies.Reachable ∧ tallies.phase = .idle ∧ tallies.wires = [] ∧
      (∀ id node, tallies.node? id = some node →
        node.template.Inert ∧ node.template.Heedless) ∧
      (tallies.tick quiet).result = .ok ⟨2, [], false⟩ ∧
      ((tallies.only newer).tick quiet).result = .ok ⟨1, [], false⟩ ∧
      ((tallies.tick quiet).graph.node? ⟨1⟩).map (·.outputs) = some [.int 1] ∧
      (((tallies.only newer).tick quiet).graph.node? ⟨1⟩).map (·.outputs) = some [.int 0]) ∧
    (mined.Reachable ∧ mined.phase = .idle ∧ mined.wires = [] ∧
      (∀ id node, mined.node? id = some node → node.template.Inert ∧ node.template.Heedless) ∧
      (mined.tick quiet).result = .error .escaped ∧
      ((mined.only newer).tick quiet).result = .ok ⟨1, [], false⟩ ∧
      (mined.trace quiet).toList.map (·.node) = [⟨0⟩] ∧
      ((mined.only newer).trace quiet).toList.map (·.node) = [⟨1⟩]) := by
  refine ⟨⟨reachable_pair _ _, rfl, rfl, detached_pair ?_, rfl, ?_, rfl, ?_⟩,
    ⟨reachable_pair _ _, rfl, rfl, detached_pair ?_, rfl, ?_, ?_, ?_⟩⟩
  · simp only [List.forall_mem_cons, detached_tally, and_self, true_and]
    exact fun _ member => absurd member List.not_mem_nil
  · with_unfolding_all rfl
  · with_unfolding_all rfl
  · simp only [List.forall_mem_cons, detached_tally, detached_mine, and_self, true_and]
    exact fun _ member => absurd member List.not_mem_nil
  · with_unfolding_all rfl
  · decide +kernel
  · decide +kernel

end Graph

end Flowgraph
