import Flowgraph.Graph.Fault
import Flowgraph.Template.Basic

namespace Flowgraph

/-- A node of a graph. It has the settings of its template for itself, and keeps the results of its
last complete run. -/
structure Node where
  id : NodeId
  template : Template
  /-- The settings, in port order. -/
  internals : List Value
  /-- The results of the last complete run. -/
  outputs : List Value
  /-- Whether the node is due to run. -/
  active : Bool := false
  /-- What an event node will emit when it runs next. -/
  payload : Option (List Value) := none

/-- The surroundings of a tick. -/
structure Scene where
  entity : Entity
  keys : Keyboard
  world : World

/-- How a run of a node ends. -/
inductive RunOutcome where
  /-- The node was not due. -/
  | skipped
  /-- Results were stored; for each output, whether it activates. -/
  | ran (activations : List Bool)
  | faulted (kind : FaultKind)
  /-- The evaluator crashed in a way that the node could not contain. -/
  | escaped
deriving DecidableEq, Repr

/-- A run: its outcome, the node and the entity afterwards, and what was printed. -/
structure NodeRun where
  outcome : RunOutcome
  node : Node
  entity : Entity
  printed : List Value := []

namespace Node

/-- A node as it is stamped out: default settings and zero results. -/
def stamp (id : NodeId) (template : Template) : Node :=
  { id, template, internals := template.defaults, outputs := Port.zeros template.outputs }

/-- A stored result. -/
def output? (node : Node) (index : Nat) : Option Value := node.outputs[index]?

/-- The node with another value for a setting, if it holds one in that place. -/
def withInternal? (node : Node) (index : Nat) (value : Value) : Option Node :=
  if index < node.internals.length then
    some { node with internals := node.internals.set index value }
  else none

/-- Makes an event node due, with one value for each output: missing values are zero and extra
ones are cut off. -/
def arm (node : Node) (payload : List Value) : Node :=
  let outputs := node.template.outputs
  { node with
    active := true
    payload :=
      some (payload.take outputs.length ++ Port.zeros (outputs.drop payload.length)) }

/-- Stores results, if there is one for each output. -/
def store (node : Node) (results : List PortResult) : RunOutcome × Node :=
  let expected := node.template.outputs.length
  if results.length = expected then
    (.ran (results.map (·.activates)), { node with outputs := results.map (·.value) })
  else (.faulted (.evaluationFailed (.resultCount expected results.length)), node)

/-- What the evaluator of a node may look at. -/
def context (node : Node) (scene : Scene) : EvaluationContext :=
  { node := node.id, internals := node.internals, entity := scene.entity, keys := scene.keys,
    world := scene.world }

/-- What the outcome of an evaluation means for the node. -/
def conclude (node : Node) : EvaluationOutcome → RunOutcome × Node
  | .results results => node.store results
  | .failed reason => (.faulted (.evaluationFailed (.stated reason)), node)
  | .panicked text => (.faulted (.evaluationFailed (.panicked text)), node)
  | .escaped => (.escaped, node)

/-- Runs the evaluator of the template. -/
def evaluate (node : Node) (inputs : List Value) (scene : Scene) : NodeRun :=
  match node.template.evaluator with
  | none =>
    { outcome := .faulted (.evaluationFailed .noEvaluator), node, entity := scene.entity }
  | some evaluator =>
    let evaluation := evaluator inputs (node.context scene)
    let (outcome, node) := node.conclude (evaluation.ending scene.entity)
    { outcome, node, entity := evaluation.effect scene.entity, printed := evaluation.printed }

/-- Emits values that are given beforehand. -/
def emit (node : Node) (values : List Value) (entity : Entity) : NodeRun :=
  let (outcome, node) := node.store (values.map fun value => ⟨value, true⟩)
  { outcome, node, entity }

/-- Runs a node that is due: the inputs are checked, results are obtained by the kind of the
template, and they are stored only if there is one for each output. Whether the node is due stays as
it was. -/
def run (node : Node) (inputs : List Value) (scene : Scene) : NodeRun :=
  if !node.active then { outcome := .skipped, node, entity := scene.entity }
  else if !validates (Port.types node.template.inputs) inputs then
    { outcome := .faulted .typeMismatch, node, entity := scene.entity }
  else
    match node.template.kind with
    | .event =>
      let values := node.payload.getD (Port.zeros node.template.outputs)
      { node with payload := none }.emit values scene.entity
    | .constant => node.emit node.internals scene.entity
    | .plain | .internal => node.evaluate inputs scene

end Node

end Flowgraph
