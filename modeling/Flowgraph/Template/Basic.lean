import Flowgraph.Graph.Identity
import Flowgraph.Port
import Flowgraph.Scene.Entity
import Flowgraph.Scene.Keys
import Flowgraph.Scene.World

namespace Flowgraph

/-- How the nodes of a template run. -/
inductive TemplateKind where
  /-- From inputs to results. -/
  | plain
  /-- Fired by notifications, never by wires; emits what the notification carried. -/
  | event
  /-- Like `plain`, with settings of its own. -/
  | internal
  /-- Emits its settings. -/
  | constant
deriving DecidableEq, Repr

namespace TemplateKind

def name : TemplateKind → String
  | .plain => "plain"
  | .event => "event"
  | .internal => "internal"
  | .constant => "constant"

def ofName? : String → Option TemplateKind
  | "plain" => some .plain
  | "event" => some .event
  | "internal" => some .internal
  | "constant" => some .constant
  | _ => none

def hasInternals : TemplateKind → Bool
  | .internal | .constant => true
  | .plain | .event => false

def ofJson? : Json → Option TemplateKind := Json.asName? ofName?

end TemplateKind

/-- A value for one output port. -/
structure PortResult where
  value : Value
  /-- Whether the nodes wired to this output become due to run. -/
  activates : Bool

/-- How an evaluation ends. -/
inductive EvaluationOutcome where
  | results (results : List PortResult)
  /-- No results, for a stated reason. -/
  | failed (reason : String)
  /-- A crash that the running node contains; its text, if it left one. -/
  | panicked (text : Option String)
  /-- A crash that the running node cannot contain, so that the tick never completes. -/
  | escaped

/-- All that an evaluator does: how it ends, and what it does beside giving results. -/
structure Evaluation where
  outcome : EvaluationOutcome
  /-- The commands that it gives the entity, in order. A crash of one of them ends it. -/
  commands : List Entity.Command := []
  /-- What it prints, in order. -/
  printed : List Value := []
  /-- What evaluators keep from now on, if it changes that. -/
  memory : Option (Dictionary Value) := none

namespace Evaluation

/-- How an evaluation ends with an entity: as the evaluator has it, unless the entity crashes. -/
def ending (evaluation : Evaluation) (entity : Entity) : EvaluationOutcome :=
  match (entity.performAll evaluation.commands).2 with
  | .returned => evaluation.outcome
  | .crashed text => .panicked text

/-- What an evaluation leaves of an entity. -/
def effect (evaluation : Evaluation) (entity : Entity) : Entity :=
  let after := (entity.performAll evaluation.commands).1
  { after with memory := evaluation.memory.getD after.memory }

end Evaluation

/-- What an evaluator may look at beside its inputs. With the entity it is handed the memory of
evaluators. -/
structure EvaluationContext where
  node : NodeId
  /-- The settings of the node, in port order. -/
  internals : List Value
  entity : Entity
  keys : Keyboard
  world : World

namespace EvaluationContext

/-- A setting as a string, empty if there is none. -/
def internalString (context : EvaluationContext) (index : Nat) : String :=
  (context.internals[index]?.bind Value.asString?).getD ""

/-- Whether a value is the handle of the controlled entity. No other entity can be reached. -/
def controls (context : EvaluationContext) (value : Value) : Bool :=
  value.asHandle? == some context.entity.handle

end EvaluationContext

/-- How nodes of a template compute. An evaluator with a state of its own finds it in the memory
that comes with its context and puts it back there, so that its answers may differ from run to run
on the same inputs. -/
abbrev Evaluator := List Value → EvaluationContext → Evaluation

/-- A template. Nothing forces its lists to fit together; `Declaration` makes those that do. -/
structure Template where
  category : String
  name : String
  kind : TemplateKind
  inputs : List Port
  outputs : List Port
  /-- The settings that each node has for itself. -/
  internals : List Port
  /-- The values with which settings start. -/
  defaults : List Value
  evaluator : Option Evaluator
  /-- Whether the settings are offered for tuning from outside. -/
  exported : Bool

namespace Template

def isEvent (t : Template) : Bool := t.kind == .event

/-- The position of a setting. -/
def internalIndex? (t : Template) (name : String) : Option Nat :=
  t.internals.findIdx? (·.name == name)

end Template

namespace Inputs

/-- An input as a number, zero if it is none. -/
def number (inputs : List Value) (index : Nat) : Float :=
  (inputs[index]?.bind Value.asFloat?).getD 0

/-- An input as a vector. -/
def vec2? (inputs : List Value) (index : Nat) : Option Vec2 :=
  inputs[index]?.bind Value.asVec2?

end Inputs

end Flowgraph
