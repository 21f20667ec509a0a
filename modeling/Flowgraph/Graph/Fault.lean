import Flowgraph.Graph.Identity
import Flowgraph.Port
import Flowgraph.Value.Literal

namespace Flowgraph

/-- The three lists of ports of a node. -/
inductive PortSide where
  | input
  | output
  | internal
deriving DecidableEq, Repr

def PortSide.name : PortSide → String
  | .input => "input"
  | .output => "output"
  | .internal => "internal"

/-- Why a call on a graph is refused. -/
inductive GraphError where
  | invalidPort (node : NodeId) (side : PortSide) (index size : Nat)
  /-- The reference belongs to another graph than the one called. -/
  | foreignNode (graph other : GraphId)
  /-- An input takes one wire. -/
  | inputTaken (node : NodeId) (input : Nat)
  | propagating
  | unknownTemplate (name : String)
  | unknownNode (node : NodeId)
  | unknownEdge (edge : EdgeId)
  /-- A saved edge has an end that no saved node is at. -/
  | missingNode (edge index : Nat)
  /-- Only a notification makes an event node due to run. -/
  | eventActivation (node : NodeId)
  | settingMismatch (node : NodeId) (index : Nat) (expected : PortType) (actual : String)
  /-- The template of the node came with too few values, so that none is in this place. -/
  | missingSetting (node : NodeId) (index : Nat)
deriving DecidableEq, Repr

def GraphError.message : GraphError → String
  | .invalidPort node side index size =>
    s!"Invalid {side.name} port index {index} on node {node} (has {size})"
  | .foreignNode graph other =>
    s!"Cannot attach nodes from graph {other.index} to graph {graph.index}"
  | .inputTaken node input => s!"Input {input} of node {node} is already wired"
  | .propagating => "Graph structure cannot change while a tick is propagating"
  | .unknownTemplate name => s!"Unknown template: {name}"
  | .unknownNode node => s!"Unknown node: {node}"
  | .unknownEdge edge => s!"Unknown edge: {edge}"
  | .missingNode edge index => s!"Edge {edge} references missing node index {index}"
  | .eventActivation node =>
    s!"Event node {node} can only be activated by the event dispatcher"
  | .settingMismatch node index expected actual =>
    s!"Internal port {index} of node {node} expects {expected.name}, got {actual}"
  | .missingSetting node index => s!"Node {node} holds no value for internal port {index}"

/-- Why an evaluation gave no usable results. -/
inductive EvaluationFailure where
  | resultCount (expected actual : Nat)
  | noEvaluator
  /-- The evaluator said why. -/
  | stated (reason : String)
  | panicked (text : Option String)
deriving DecidableEq, Repr

def EvaluationFailure.message : EvaluationFailure → String
  | .resultCount expected actual => s!"expected {expected} results, got {actual}"
  | .noEvaluator => "template has no evaluation function"
  | .stated reason => reason
  | .panicked (some text) => s!"panicked: {text}"
  | .panicked none => "panicked"

/-- What befalls a node during a tick, and never stops the tick. -/
inductive FaultKind where
  | typeMismatch
  | evaluationFailed (failure : EvaluationFailure)
  /-- The tick ended at its cap with this node next. -/
  | overflow (cap : Nat)
deriving DecidableEq, Repr

def FaultKind.message : FaultKind → String
  | .typeMismatch => "input values do not match the declared port types"
  | .evaluationFailed failure => s!"evaluation failed: {failure.message}"
  | .overflow cap => s!"propagation exceeded {cap} executions"

/-- A fault, and the node that it befell. -/
structure NodeFault where
  node : NodeId
  template : String
  kind : FaultKind
deriving DecidableEq, Repr

def NodeFault.message (fault : NodeFault) : String :=
  s!"node {fault.node} ({fault.template}): {fault.kind.message}"

/-- How much a notice matters. -/
inductive Severity where
  | info
  | warn
  | error
deriving DecidableEq, Repr

/-- What is written to the log. The wording is left to `Notice.message`. -/
inductive Notice where
  | printed (value : Value)
  | looseWire (output input : PortType)
  | fault (kind : FaultKind)
  | editWhilePropagating
  | extraSettings
  | savedMisfit (actual : String) (expected : PortType)
  | exportMisfit (value : Value) (expected : PortType)
  | unmatchedOverrides
  | defaultCount

namespace Notice

def severity : Notice → Severity
  | .printed _ => .info
  | .editWhilePropagating | .fault (.overflow _) => .error
  | _ => .warn

def message : Notice → String
  | .printed value => value.display
  | .looseWire output input =>
    s!"Wiring {output.name} output into {input.name} input; mismatching values fault the target"
  | .fault kind => kind.message
  | .editWhilePropagating => "Structural edit attempted while propagating"
  | .extraSettings => "Dropping extra saved internal values"
  | .savedMisfit actual expected =>
    s!"Saved {actual} does not fit {expected.name} port; keeping default"
  | .exportMisfit value expected =>
    s!"Value {value.display} does not fit {expected.name} export; skipped"
  | .unmatchedOverrides => "Some export overrides matched nothing"
  | .defaultCount => "Default value count does not match internal ports"

end Notice

end Flowgraph
