import Flowgraph.Graph.Basic
import Flowgraph.Template.Builtin

namespace Flowgraph.Graph

/-- Arms the event nodes whose template a predicate holds of; how many they are. In no other way
does an event node become due. -/
def notifyWhere (g : Graph) (holds : Template → Bool) (payload : List Value) : Reply Nat :=
  g.whenIdle <|
    let (armed, changed) :=
      g.changeWhere (fun node => node.template.isEvent && holds node.template) (·.arm payload)
    accept changed armed

/-- Arms the event nodes of a template. -/
def notify (g : Graph) (name : String) (payload : List Value) : Reply Nat :=
  g.notifyWhere (·.name == name) payload

/-- Arms the event nodes of a category. -/
def notifyCategory (g : Graph) (category : String) (payload : List Value) : Reply Nat :=
  g.notifyWhere (·.category == category) payload

/-- Tells of a tick of the clock and the seconds since the one before. -/
def notifyTick (g : Graph) (dt : Float) : Reply Nat :=
  g.notify Builtin.onTick [.float dt]

/-- Tells of a collision: the normal of the contact and the other entity. -/
def notifyCollision (g : Graph) (normal : Vec2) (other : Handle) : Reply Nat :=
  g.notify Builtin.onCollide [normal.toValue, .handle other]

/-- Whether a node can have no wires into it and waits for no notification. -/
def isSource (node : Node) : Bool :=
  !node.template.isEvent && node.template.inputs.isEmpty

/-- Makes the sources due, which no wire could ever activate; how many they are. -/
def activateSources (g : Graph) : Reply Nat :=
  g.whenIdle <|
    let (activated, changed) := g.changeWhere isSource fun node => { node with active := true }
    accept changed activated

end Flowgraph.Graph
