import Flowgraph.Graph.Export
import Flowgraph.Proofs.Scene.Entity

namespace Flowgraph

namespace Node

/-- The node without its state of execution. -/
def still (node : Node) : Node :=
  { node with outputs := [], active := false, payload := none }

/-- The node without its settings and its state of execution. -/
def bare (node : Node) : Node := { node.still with internals := [] }

/-- The results that a node comes up with, by the kind of its template. -/
def Produces (node : Node) (inputs : List Value) (scene : Scene) (results : List PortResult) :
    Prop :=
  match node.template.kind with
  | .event =>
    results = (node.payload.getD (Port.zeros node.template.outputs)).map fun value => ⟨value, true⟩
  | .constant => results = node.internals.map fun value => ⟨value, true⟩
  | .plain | .internal => ∃ evaluator, node.template.evaluator = some evaluator ∧
    (evaluator inputs (node.context scene)).ending scene.entity = .results results

theorem evaluated_of_produces {node : Node} {inputs : List Value} {scene : Scene}
    {results : List PortResult}
    (evaluates : node.template.kind = .plain ∨ node.template.kind = .internal)
    (produced : node.Produces inputs scene results) :
    ∃ evaluator, node.template.evaluator = some evaluator ∧
      (evaluator inputs (node.context scene)).outcome = .results results := by
  obtain ⟨evaluator, found, ended⟩ : ∃ evaluator, node.template.evaluator = some evaluator ∧
      (evaluator inputs (node.context scene)).ending scene.entity = .results results := by
    unfold Produces at produced
    rcases evaluates with kind | kind
    · simpa only [kind] using produced
    · simpa only [kind] using produced
  exact ⟨evaluator, found, Evaluation.outcome_of_ending ended (by simp)⟩

variable (node : Node) (inputs : List Value) (scene : Scene)

/-- An evaluation gives results, which the node then stores if it can, or it leaves the node as it
was. -/
theorem conclude_cases (outcome : EvaluationOutcome) :
    (∃ results, outcome = .results results ∧ node.conclude outcome = node.store results) ∨
      ((∀ results, outcome ≠ .results results) ∧ (node.conclude outcome).2 = node ∧
        (∀ a, (node.conclude outcome).1 ≠ .ran a) ∧ (node.conclude outcome).1 ≠ .skipped) := by
  cases outcome with
  | results results => exact Or.inl ⟨results, rfl, rfl⟩
  | failed | panicked | escaped =>
    exact Or.inr ⟨by simp, rfl, by simp [conclude], by simp [conclude]⟩

/-- An evaluation stores the results that the evaluator gives, or there are none to store. -/
theorem evaluate_cases :
    (∃ evaluator results, node.template.evaluator = some evaluator ∧
      (evaluator inputs (node.context scene)).ending scene.entity = .results results ∧
      (node.evaluate inputs scene).outcome = (node.store results).1 ∧
      (node.evaluate inputs scene).node = (node.store results).2) ∨
    ((∀ evaluator results, node.template.evaluator = some evaluator →
        (evaluator inputs (node.context scene)).ending scene.entity ≠ .results results) ∧
      (node.evaluate inputs scene).node = node ∧
      (∀ a, (node.evaluate inputs scene).outcome ≠ .ran a) ∧
      (node.evaluate inputs scene).outcome ≠ .skipped) := by
  unfold evaluate
  cases node.template.evaluator with
  | none => exact Or.inr ⟨by simp, rfl, by simp, by simp⟩
  | some evaluator =>
    simp only
    rcases node.conclude_cases ((evaluator inputs (node.context scene)).ending scene.entity) with
      ⟨results, given, stored⟩ | ⟨barren, left⟩
    · rw [stored]
      exact Or.inl ⟨evaluator, results, rfl, given, rfl, rfl⟩
    · refine Or.inr ⟨?_, left⟩
      rintro _ results ⟨⟩
      exact barren results

/-- Whether a run goes on to ask for results: the node is due and its inputs pass. -/
def starts : Bool := node.active && validates (Port.types node.template.inputs) inputs

/-- The node after it has given out its payload, if its kind emits any. -/
def spent : Node := if node.template.isEvent then { node with payload := none } else node

/-- A run that does not get past its checks leaves the node alone, and is skipped only if the node
is not due. -/
theorem run_of_not_starts (stays : node.starts inputs = false) :
    (node.run inputs scene).node = node ∧ (∀ a, (node.run inputs scene).outcome ≠ .ran a) ∧
      ((node.run inputs scene).outcome = .skipped → node.active = false) := by
  unfold run
  split
  · rename_i idle
    exact ⟨rfl, by simp, fun _ => by simpa using idle⟩
  split
  · exact ⟨rfl, by simp, by simp⟩
  · rename_i due valid
    simp only [Bool.not_eq_true', Bool.not_eq_false] at due valid
    simp [starts, due, valid] at stays

/-- Past its checks a run has results to store, and then it stores them at the node without its
payload, or the node comes up with none and is left alone. -/
theorem run_of_starts (starts : node.starts inputs = true) :
    (∃ results, node.Produces inputs scene results ∧
      (node.run inputs scene).outcome = (node.spent.store results).1 ∧
      (node.run inputs scene).node = (node.spent.store results).2) ∨
    ((∀ results, ¬ node.Produces inputs scene results) ∧ (node.run inputs scene).node = node ∧
      (∀ a, (node.run inputs scene).outcome ≠ .ran a) ∧
      (node.run inputs scene).outcome ≠ .skipped) := by
  obtain ⟨due, valid⟩ := Bool.and_eq_true_iff.mp starts
  unfold run Produces spent Template.isEvent
  simp only [due, valid, Bool.not_true, Bool.false_eq_true, if_false]
  cases kind : node.template.kind with
  | event => exact Or.inl ⟨_, rfl, rfl, rfl⟩
  | constant => exact Or.inl ⟨_, rfl, rfl, rfl⟩
  | plain | internal =>
    rcases node.evaluate_cases inputs scene with
      ⟨evaluator, results, found, given, stored⟩ | ⟨barren, left⟩
    · exact Or.inl ⟨results, ⟨evaluator, found, given⟩, stored⟩
    · refine Or.inr ⟨?_, left⟩
      rintro results ⟨evaluator, found, given⟩
      exact barren evaluator results found given

/-- A run leaves its node alone, or it tries to store what the node has come up with; an event node
has used up its payload by then. -/
theorem run_cases :
    ((node.run inputs scene).node = node ∧ (∀ a, (node.run inputs scene).outcome ≠ .ran a) ∧
      ((node.run inputs scene).outcome = .skipped → node.active = false)) ∨
    ∃ before results, (before = node ∨ before = { node with payload := none }) ∧
      node.Produces inputs scene results ∧
      (node.run inputs scene).outcome = (before.store results).1 ∧
      (node.run inputs scene).node = (before.store results).2 := by
  cases starts : node.starts inputs with
  | false => exact Or.inl (node.run_of_not_starts inputs scene starts)
  | true =>
    rcases node.run_of_starts inputs scene starts with
      ⟨results, produced, stored⟩ | ⟨_, same, notRan, notSkipped⟩
    · have origin : node.spent = node ∨ node.spent = { node with payload := none } := by
        unfold spent
        split
        · exact Or.inr rfl
        · exact Or.inl rfl
      exact Or.inr ⟨node.spent, results, origin, produced, stored⟩
    · exact Or.inl ⟨same, notRan, fun skipped => absurd skipped notSkipped⟩

/-- Results are stored if there is one for each output, and else nothing changes. -/
theorem store_cases (results : List PortResult) :
    (results.length = node.template.outputs.length ∧
      (node.store results).1 = .ran (results.map (·.activates)) ∧
      (node.store results).2 = { node with outputs := results.map (·.value) }) ∨
    ((node.store results).2 = node ∧ (∀ a, (node.store results).1 ≠ .ran a) ∧
      (node.store results).1 ≠ .skipped) := by
  unfold store
  simp only
  split
  · rename_i fits
    exact Or.inl ⟨fits, rfl, rfl⟩
  · exact Or.inr ⟨rfl, by simp, by simp⟩

/-- A run changes nothing of a node but its stored results and its payload. -/
theorem still_run : (node.run inputs scene).node.still = node.still ∧
    (node.run inputs scene).node.active = node.active := by
  rcases node.run_cases inputs scene with ⟨same, _⟩ | ⟨before, results, origin, _, _, stored⟩
  · rw [same]
    exact ⟨rfl, rfl⟩
  · rw [stored]
    rcases before.store_cases results with ⟨_, _, after⟩ | ⟨after, _⟩ <;> rw [after] <;>
      rcases origin with rfl | rfl <;> exact ⟨rfl, rfl⟩

/-- Only a node that is not due is skipped. -/
theorem run_ne_skipped (active : node.active = true) :
    (node.run inputs scene).outcome ≠ .skipped := by
  rcases node.run_cases inputs scene with ⟨_, _, idle⟩ | ⟨before, results, _, _, outcome, _⟩
  · intro skipped
    simp [idle skipped] at active
  · rw [outcome]
    rcases before.store_cases results with ⟨_, ran, _⟩ | ⟨_, _, notSkipped⟩
    · simp [ran]
    · exact notSkipped

/-- A run that stores has come up with one result for each output, and stores exactly those. -/
theorem run_ran {activations : List Bool}
    (ran : (node.run inputs scene).outcome = .ran activations) :
    ∃ results, node.Produces inputs scene results ∧
      results.length = node.template.outputs.length ∧ activations = results.map (·.activates) ∧
      (node.run inputs scene).node.outputs = results.map (·.value) := by
  rcases node.run_cases inputs scene with
    ⟨_, notRan, _⟩ | ⟨before, results, origin, produced, outcome, stored⟩
  · exact absurd ran (notRan activations)
  · rcases before.store_cases results with ⟨fits, kept, after⟩ | ⟨_, notRan, _⟩
    · refine ⟨results, produced, ?_, ?_, ?_⟩
      · rcases origin with rfl | rfl <;> exact fits
      · exact RunOutcome.ran.inj (ran.symm.trans (outcome.trans kept))
      · rw [stored, after]
    · exact absurd (outcome.symm.trans ran) (notRan activations)

/-- Without a result for each output, what was stored stays. -/
theorem outputs_run (notRan : ∀ a, (node.run inputs scene).outcome ≠ .ran a) :
    (node.run inputs scene).node.outputs = node.outputs := by
  rcases node.run_cases inputs scene with ⟨same, _⟩ | ⟨before, results, origin, _, outcome, stored⟩
  · rw [same]
  · rw [outcome] at notRan
    rcases before.store_cases results with ⟨_, ran, _⟩ | ⟨after, _⟩
    · exact absurd ran (notRan _)
    · rw [stored, after]
      rcases origin with rfl | rfl <;> rfl

/-- The evaluation that a run makes. Only a run past its checks makes one, and only of a node that
computes. -/
def evaluation? (node : Node) (inputs : List Value) (scene : Scene) : Option Evaluation :=
  if node.starts inputs then
    match node.template.kind with
    | .plain | .internal =>
      node.template.evaluator.map fun evaluator => evaluator inputs (node.context scene)
    | .event | .constant => none
  else none

/-- What a run does to the entity, and to the memory that goes with it, its evaluation does. -/
theorem entity_run : (node.run inputs scene).entity =
    ((node.evaluation? inputs scene).map (·.effect scene.entity)).getD scene.entity := by
  unfold run evaluation? starts
  cases node.active with
  | false => rfl
  | true =>
    cases validates (Port.types node.template.inputs) inputs with
    | false => rfl
    | true =>
      cases node.template.kind with
      | event | constant => rfl
      | plain | internal =>
        simp only [evaluate, Bool.not_true, Bool.false_eq_true, if_false, Bool.and_self, if_true]
        cases node.template.evaluator <;> rfl

/-- A run leaves the entity its operations. -/
theorem operations_run : (node.run inputs scene).entity.conduct = scene.entity.conduct ∧
    (node.run inputs scene).entity.gauge = scene.entity.gauge := by
  rw [entity_run]
  cases node.evaluation? inputs scene with
  | none => exact ⟨rfl, rfl⟩
  | some evaluation =>
    obtain ⟨body, memory, effect⟩ := evaluation.effect_eq scene.entity
    rw [Option.map_some, Option.getD_some, effect]
    exact ⟨rfl, rfl⟩

variable {node inputs scene} in
/-- An evaluation takes place just where a run gets past its checks and the template has an
evaluator. -/
theorem evaluation?_eq_some {evaluation : Evaluation}
    (evaluated : node.evaluation? inputs scene = some evaluation) :
    node.starts inputs = true ∧ ∃ evaluator, node.template.evaluator = some evaluator ∧
      evaluator inputs (node.context scene) = evaluation := by
  unfold evaluation? at evaluated
  split at evaluated
  · rename_i starts
    refine ⟨starts, ?_⟩
    split at evaluated
    · exact Option.map_eq_some_iff.mp evaluated
    · exact Option.map_eq_some_iff.mp evaluated
    · cases evaluated
    · cases evaluated
  · cases evaluated

/-- What an evaluator may look at is nothing that a run changes. -/
theorem context_of_still {node twin : Node} (same : twin.still = node.still) (scene : Scene) :
    twin.context scene = node.context scene := by
  have id : twin.id = node.id := (congrArg Node.id same :)
  have internals : twin.internals = node.internals := (congrArg Node.internals same :)
  simp only [context, id, internals]

theorem bare_withInternal {node after : Node} {index : Nat} {value : Value}
    (changed : node.withInternal? index value = some after) : after.bare = node.bare := by
  unfold withInternal? at changed
  split at changed
  · cases changed; rfl
  · cases changed

theorem withInternal_of_tuned {node after : Node} {values : Dictionary Value}
    (tuned : node.tune values = .tuned after) :
    ∃ index stored, node.withInternal? index stored = some after := by
  unfold tune at tuned
  repeat' split at tuned
  all_goals cases tuned
  rename_i changed
  exact ⟨_, _, changed⟩

end Node

end Flowgraph
