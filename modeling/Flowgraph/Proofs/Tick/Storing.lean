import Flowgraph.Proofs.Event.Delivery
import Flowgraph.Proofs.Tick.Overflow

namespace Flowgraph

namespace Node

variable (node : Node) (inputs : List Value) (scene : Scene)

theorem template_spent : node.spent.template = node.template := by
  unfold spent
  split <;> rfl

theorem produces_unique {first second : List PortResult}
    (one : node.Produces inputs scene first) (other : node.Produces inputs scene second) :
    first = second := by
  unfold Produces at one other
  cases kind : node.template.kind with
  | event | constant =>
    simp only [kind] at one other
    rw [one, other]
  | plain | internal =>
    simp only [kind] at one other
    obtain ⟨evaluator, found, outcome⟩ := one
    obtain ⟨twin, same, again⟩ := other
    cases found.symm.trans same
    exact EvaluationOutcome.results.inj (outcome.symm.trans again)

theorem run_eq_skipped_iff : (node.run inputs scene).outcome = .skipped ↔ node.active = false := by
  refine ⟨fun skipped => ?_, fun idle => by simp [run, idle]⟩
  by_contra due
  exact node.run_ne_skipped inputs scene (by simpa using due) skipped

/-- A run stores if, and only if, it gets past its checks to one result for each output. -/
theorem run_eq_ran_iff {activations : List Bool} :
    (node.run inputs scene).outcome = .ran activations ↔
      node.starts inputs = true ∧ ∃ results, node.Produces inputs scene results ∧
        results.length = node.template.outputs.length ∧
        activations = results.map (·.activates) := by
  constructor
  · intro ran
    obtain ⟨results, produced, length, flags, _⟩ := node.run_ran inputs scene ran
    refine ⟨?_, results, produced, length, flags⟩
    by_contra stays
    exact (node.run_of_not_starts inputs scene (Bool.eq_false_iff.mpr stays)).2.1 _ ran
  · rintro ⟨starts, results, produced, length, rfl⟩
    rcases node.run_of_starts inputs scene starts with ⟨others, same, outcome, _⟩ | ⟨barren, _⟩
    · cases node.produces_unique inputs scene same produced
      rcases node.spent.store_cases results with ⟨_, ran, _⟩ | ⟨_, unfit, _⟩
      · exact outcome.trans ran
      · refine absurd ?_ (unfit (results.map (·.activates)))
        simp only [store, node.template_spent, length, if_true]
    · exact absurd produced (barren results)

/-- A payload is used up by the runs of event nodes that get past their checks, and by no others. -/
theorem payload_run : (node.run inputs scene).node.payload =
    if node.starts inputs && node.template.isEvent then none else node.payload := by
  cases starts : node.starts inputs with
  | false => rw [(node.run_of_not_starts inputs scene starts).1, Bool.false_and]; rfl
  | true =>
    rcases node.run_of_starts inputs scene starts with ⟨results, _, _, stored⟩ | ⟨barren, same, _⟩
    · rw [stored]
      have kept : (node.spent.store results).2.payload = node.spent.payload := by
        rcases node.spent.store_cases results with ⟨_, _, after⟩ | ⟨after, _⟩ <;> rw [after]
      rw [kept, spent, Bool.true_and]
      split <;> rfl
    · have waits : node.template.isEvent = false := by
        by_contra event
        have kind : node.template.kind = .event := eq_of_beq (Bool.not_eq_false _ ▸ event)
        exact barren _ (by simp only [Produces, kind]; rfl)
      rw [same, waits]
      rfl

/-- An event node that is due holds a value for each of its outputs. -/
def Charged (node : Node) : Prop :=
  node.template.isEvent = true → node.active = true →
    ∃ payload, node.payload = some payload ∧ payload.length = node.template.outputs.length

theorem charged_of_resting {node : Node} (resting : node.active = false) : node.Charged :=
  fun _ due => by cases resting.symm.trans due

/-- Between ticks an event node is made due only with a value for each of its outputs. -/
theorem Change.charged {old new : Node} {told : Option (List Value)} (change : old.Change told new)
    (before : old.Charged) : new.Charged := by
  cases change with
  | same => exact before
  | tuned tuned =>
    obtain ⟨internals, rfl⟩ := tuned.eq
    exact before
  | due waits => exact fun event => by cases waits.symm.trans event
  | told payload => exact fun _ _ => ⟨_, rfl, old.template.length_emission payload⟩

end Node

namespace Graph

variable {g : Graph} {scene : Scene}

/-- No stage of a tick makes event nodes due. -/
theorem Stage.charged {p : Propagation} (stage : g.Stage scene p) (whole : g.Integrity)
    (start : ∀ id node, g.node? id = some node → node.Charged) :
    ∀ id node, p.graph.node? id = some node → node.Charged := by
  intro id node live event due
  obtain ⟨twin, atStart, template⟩ := (stage.running whole).twin live
  rcases stage.event_node whole atStart (template ▸ event) with ⟨_, kept⟩ | ⟨_, _, _, _, _, ran⟩
  · cases live.symm.trans kept
    exact start id node atStart event due
  · cases live.symm.trans ran
    cases due

theorem Reachable.charged (reach : g.Reachable) :
    ∀ id node, g.node? id = some node → node.Charged := by
  refine Reachable.induct ?_ ?_ ?_ ?_ reach
  · intro graph registry config id node live
    rw [(fresh_empty graph registry config id node live).unused]
    exact Node.charged_of_resting rfl
  · intro graph registry config form _ id node live
    rw [((fresh_load graph registry config form).1 id node live).unused]
    exact Node.charged_of_resting rfl
  · intro g call between _ before id node live
    rcases call.change_after between g live with ⟨_, t, _, _, rfl⟩ | ⟨old, atId, change⟩
    · exact Node.charged_of_resting rfl
    · exact change.charged (before id old atId)
  · intro g scene reach before id node live
    by_cases idle : g.phase = .idle
    · rcases completes_or_cutShort reach.integrity idle scene with
        ⟨report, done⟩ | ⟨p, _, _, _, _, stage, _, _, same⟩
      · exact Node.charged_of_resting (resting_of_tick reach done live)
      · rw [same] at live
        exact stage.charged reach.integrity before id node live
    · rw [g.tick_of_busy scene idle] at live
      exact before id node live

end Graph

namespace Node

/-- A run leaves the node its name, its template, its settings and its being due. It is skipped if,
and only if, the node is not due. It runs through if, and only if, the node is due, its inputs pass
and what it comes up with has one result for each output; then these results are all that is stored,
and their flags are the outcome. In any other case what was stored stays. A payload is used up just
by the event nodes that are due and whose inputs pass, and at every stage of a tick an event node
that is due has one, with a value for each output. -/
theorem run_all_or_nothing (node : Node) (inputs : List Value) (scene : Scene) :
    ((node.run inputs scene).node.id = node.id ∧
      (node.run inputs scene).node.template = node.template ∧
      (node.run inputs scene).node.internals = node.internals ∧
      (node.run inputs scene).node.active = node.active) ∧
    ((node.run inputs scene).outcome = .skipped ↔ node.active = false) ∧
    (∀ activations, (node.run inputs scene).outcome = .ran activations ↔
      node.active = true ∧ validates (Port.types node.template.inputs) inputs = true ∧
        ∃ results, node.Produces inputs scene results ∧
          results.length = node.template.outputs.length ∧
          activations = results.map (·.activates)) ∧
    (∀ activations results, (node.run inputs scene).outcome = .ran activations →
      node.Produces inputs scene results →
        activations = results.map (·.activates) ∧
        (node.run inputs scene).node.outputs = results.map (·.value)) ∧
    ((∀ activations, (node.run inputs scene).outcome ≠ .ran activations) →
      (node.run inputs scene).node.outputs = node.outputs) ∧
    ((node.run inputs scene).node.payload =
      if node.active && validates (Port.types node.template.inputs) inputs &&
        node.template.isEvent then none else node.payload) ∧
    (node.template.Contained → (node.run inputs scene).outcome ≠ .escaped) ∧
    ∀ (g : Graph) (around : Scene) (p : Propagation) (id : NodeId), g.Reachable →
      g.Stage around p → p.graph.node? id = some node → node.template.isEvent = true →
        node.active = true → ∃ payload, node.payload = some payload ∧
          payload.length = node.template.outputs.length := by
  obtain ⟨still, active⟩ := node.still_run inputs scene
  refine ⟨⟨(congrArg Node.id still :), (congrArg Node.template still :),
    (congrArg Node.internals still :), active⟩, node.run_eq_skipped_iff inputs scene,
    fun activations => ?_, fun activations results ran produced => ?_,
    node.outputs_run inputs scene, node.payload_run inputs scene, fun contained escaped => ?_,
    fun g around p id reach stage live event due => ?_⟩
  · rw [node.run_eq_ran_iff inputs scene, Node.starts, Bool.and_eq_true, and_assoc]
  · obtain ⟨stored, same, _, flags, outputs⟩ := node.run_ran inputs scene ran
    cases node.produces_unique inputs scene same produced
    exact ⟨flags, outputs⟩
  · have admits := node.admits_run inputs scene
    rw [escaped] at admits
    cases admits with
    | escaped found ended => exact contained _ found _ _ ended
  · exact stage.charged reach.integrity reach.charged id node live event due

/-- A bell that was told too little still rings all its outputs, and one that is given an input that
it has no port for keeps what it was told. -/
theorem run_all_or_nothing_belfry :
    ∃ node : Node, Graph.belfry.Reachable ∧ Graph.belfry.node? ⟨0⟩ = some node ∧
      node.payload = some [.int 7, .string ""] ∧
      (node.run [] Graph.quiet).outcome = .ran [true, true] ∧
      (node.run [] Graph.quiet).node.outputs = [.int 7, .string ""] ∧
      (node.run [] Graph.quiet).node.payload = none ∧
      (node.run [.null] Graph.quiet).outcome ≠ .escaped ∧
      (node.run [.null] Graph.quiet).node.outputs = [.int 0, .string ""] ∧
      (node.run [.null] Graph.quiet).node.payload = some [.int 7, .string ""] := by
  let node : Node := { Node.stamp ⟨0⟩ Graph.bell.template with
    active := true
    payload := some [.int 7, .string ""] }
  have reach : Graph.belfry.Reachable := (Graph.Reachable.empty _ _ _).afterAll Graph.ringing
  -- arming maps over all slots, which only unfolding everything evaluates
  have live : Graph.belfry.node? ⟨0⟩ = some node := by with_unfolding_all rfl
  have bound (p : Propagation) := (run_all_or_nothing node [] Graph.quiet).2.2.2.2.2.2.2
    Graph.belfry Graph.quiet _ ⟨0⟩ reach .start live rfl rfl
  obtain ⟨_, _, runs, stores, _, used, _⟩ := run_all_or_nothing node [] Graph.quiet
  obtain ⟨_, _, refuses, _, stays, keeps, contained, _⟩ :=
    run_all_or_nothing node [.null] Graph.quiet
  have ran := (runs [true, true]).mpr ⟨rfl, rfl, _, rfl, rfl, rfl⟩
  have refused (a : List Bool) : (node.run [.null] Graph.quiet).outcome ≠ .ran a :=
    fun ran => by cases ((refuses a).mp ran).2.1
  have calm : node.template.Contained := by
    intro evaluator absent
    cases absent
  exact ⟨node, reach, live, rfl, ran, (stores _ _ ran rfl).2, used, contained calm,
    stays refused, keeps⟩

end Node

end Flowgraph
