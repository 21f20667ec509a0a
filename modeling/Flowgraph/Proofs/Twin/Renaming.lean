import Flowgraph.Proofs.Saved.Positions

namespace Flowgraph

/-- The evaluator does not look at the number of its node. -/
def Template.Blind (t : Template) : Prop :=
  ∀ evaluator, t.evaluator = some evaluator → ∀ inputs context id,
    evaluator inputs { context with node := id } = evaluator inputs context

namespace Node

/-- The node under another number. -/
def renumber (rank : NodeId → NodeId) (node : Node) : Node := { node with id := rank node.id }

variable (rank : NodeId → NodeId) (node : Node)

theorem renumber_store (results : List PortResult) :
    (node.renumber rank).store results =
      ((node.store results).1, (node.store results).2.renumber rank) := by
  by_cases fits : results.length = node.template.outputs.length
  · simp only [store, renumber, fits, if_true]
  · simp only [store, renumber, fits, if_false]

theorem renumber_conclude (outcome : EvaluationOutcome) :
    (node.renumber rank).conclude outcome =
      ((node.conclude outcome).1, (node.conclude outcome).2.renumber rank) := by
  cases outcome with
  | results results => exact node.renumber_store rank results
  | _ => rfl

theorem renumber_withInternal? (index : Nat) (v : Value) :
    (node.renumber rank).withInternal? index v =
      (node.withInternal? index v).map (Node.renumber rank) := by
  by_cases inside : index < node.internals.length
  · simp only [withInternal?, renumber, inside, if_true, Option.map_some]
  · simp only [withInternal?, renumber, inside, if_false, Option.map_none]

end Node

/-- The run of the node under its other number. -/
def NodeRun.renumber (rank : NodeId → NodeId) (run : NodeRun) : NodeRun :=
  { run with node := run.node.renumber rank }

/-- An evaluator that does not look at the number of its node evaluates the same under another. -/
theorem Node.renumber_evaluate (rank : NodeId → NodeId) {node : Node}
    (blind : node.template.Blind) (inputs : List Value) (scene : Scene) :
    (node.renumber rank).evaluate inputs scene = (node.evaluate inputs scene).renumber rank := by
  unfold evaluate
  have template : (node.renumber rank).template = node.template := rfl
  rw [template]
  cases found : node.template.evaluator with
  | none => rfl
  | some evaluator =>
    have same : evaluator inputs ((node.renumber rank).context scene) =
        evaluator inputs (node.context scene) :=
      blind evaluator found inputs (node.context scene) (rank node.id)
    simp only [same, renumber_conclude]
    rfl

/-- A node runs under another number as it does under its own. -/
theorem Node.renumber_run (rank : NodeId → NodeId) {node : Node} (blind : node.template.Blind)
    (inputs : List Value) (scene : Scene) :
    (node.renumber rank).run inputs scene = (node.run inputs scene).renumber rank := by
  have emitted (node : Node) (values : List Value) :
      (node.renumber rank).emit values scene.entity =
        (node.emit values scene.entity).renumber rank := by
    simp only [emit, renumber_store]
    rfl
  have template : (node.renumber rank).template = node.template := rfl
  have active : (node.renumber rank).active = node.active := rfl
  unfold run
  rw [template, active]
  split
  · rfl
  split
  · rfl
  split
  · exact emitted { node with payload := none } _
  · exact emitted node _
  · exact renumber_evaluate rank blind inputs scene
  · exact renumber_evaluate rank blind inputs scene

def Tuning.renumber (rank : NodeId → NodeId) : Tuning → Tuning
  | .untouched => .untouched
  | .misfit v expected => .misfit v expected
  | .missing index => .missing index
  | .tuned node => .tuned (node.renumber rank)

/-- Tuning a node has nothing to do with its number. -/
theorem Node.renumber_tune (rank : NodeId → NodeId) (node : Node) (values : Dictionary Value) :
    (node.renumber rank).tune values = (node.tune values).renumber rank := by
  have tunable : (node.renumber rank).tunable? = node.tunable? := rfl
  unfold tune
  rw [tunable]
  split
  · rfl
  split
  · rfl
  split
  · rfl
  rw [renumber_withInternal?]
  cases node.withInternal? _ _ <;> rfl

theorem Tuning.renumber_node (rank : NodeId → NodeId) (tuning : Tuning) (before : Node) :
    (tuning.renumber rank).node (before.renumber rank) = (tuning.node before).renumber rank := by
  cases tuning <;> rfl

theorem Tuning.renumber_facts (rank : NodeId → NodeId) (tuning : Tuning) :
    (tuning.renumber rank).isTuned = tuning.isTuned ∧
      (tuning.renumber rank).notice? = tuning.notice? ∧
      (tuning.renumber rank).missing? = tuning.missing? := by
  cases tuning <;> exact ⟨rfl, rfl, rfl⟩

/-- Other numbers for graphs and for nodes. -/
structure Renaming where
  graph : GraphId → GraphId
  node : NodeId → NodeId

namespace Renaming

variable (r : Renaming)

/-- References name a graph as well, which may have another number, too. -/
def ref (ref : NodeRef) : NodeRef := ⟨r.graph ref.graph, r.node ref.node⟩

/-- An error that names graphs and nodes by their other numbers. -/
def error : GraphError → GraphError
  | .invalidPort node side index size => .invalidPort (r.node node) side index size
  | .foreignNode graph other => .foreignNode (r.graph graph) (r.graph other)
  | .inputTaken node input => .inputTaken (r.node node) input
  | .unknownNode node => .unknownNode (r.node node)
  | .eventActivation node => .eventActivation (r.node node)
  | .settingMismatch node index expected actual =>
    .settingMismatch (r.node node) index expected actual
  | .missingSetting node index => .missingSetting (r.node node) index
  | .propagating => .propagating
  | .unknownTemplate name => .unknownTemplate name
  | .unknownEdge edge => .unknownEdge edge
  | .missingNode edge index => .missingNode edge index

def fault (fault : NodeFault) : NodeFault := { fault with node := r.node fault.node }

def execution (execution : Execution) : Execution :=
  { execution with node := r.node execution.node }

def report (report : TickReport) : TickReport :=
  { report with faults := report.faults.map r.fault }

def failure : TickFailure → TickFailure
  | .refused error => .refused (r.error error)
  | .escaped => .escaped

end Renaming

end Flowgraph
