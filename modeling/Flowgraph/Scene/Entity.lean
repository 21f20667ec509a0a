import Flowgraph.Value.Tagged

namespace Flowgraph

/-- The state of an entity, which is a body in the plane. -/
structure Body where
  position : Vec2 := .zero
  velocity : Vec2 := .zero
  /-- The force gathered since the last integration. -/
  force : Vec2 := .zero
  scale : Float := 1
  mass : Float
  /-- Whatever else the operations of its host go by. -/
  inner : Dictionary Value := []

namespace Entity

/-- The operations of an entity by which a graph may change it. -/
inductive Command where
  | setVelocity (v : Vec2)
  | setVelocityX (x : Float)
  | applyForce (force : Vec2)
  | setScale (scale : Float)

/-- How an operation of an entity ends. -/
inductive Completion where
  | returned
  /-- A crash, whatever the operation had done by then; its text, if it left one. -/
  | crashed (text : Option String)

end Entity

/-- What a simulated body does at a command. -/
def Body.obey (body : Body) : Entity.Command → Body
  | .setVelocity v => { body with velocity := v }
  | .setVelocityX x => { body with velocity := { body.velocity with x } }
  | .applyForce force => { body with force := body.force + force }
  | .setScale scale => { body with scale }

/-- A scene actor that graphs control. Its operations are those of its host, and a simulated one
does as its body does. -/
structure Entity extends Body where
  handle : Handle
  /-- What an operation makes of the body, and how it ends. -/
  conduct : Entity.Command → Body → Body × Entity.Completion :=
    fun command body => (body.obey command, .returned)
  /-- What a reading of the velocity gives, or the text of the crash that it ends in, if it left
  one. -/
  gauge : Body → Except (Option String) Vec2 := fun body => .ok body.velocity
  /-- What evaluators keep for themselves from one run to the next. It is no part of the body; it
  goes where the entity goes, since both outlast every tick and are common to all graphs. -/
  memory : Dictionary Value := []

namespace Entity

/-- The velocity as the entity tells it. -/
def reading (entity : Entity) : Except (Option String) Vec2 := entity.gauge entity.toBody

/-- Calls one operation. -/
def perform (entity : Entity) (command : Command) : Entity × Completion :=
  let (body, completion) := entity.conduct command entity.toBody
  ({ entity with toBody := body }, completion)

/-- Calls operations in order, up to the first that crashes. -/
def performAll (entity : Entity) : List Command → Entity × Completion
  | [] => (entity, .returned)
  | command :: rest =>
    match entity.perform command with
    | (entity, .returned) => entity.performAll rest
    | (entity, .crashed text) => (entity, .crashed text)

/-- A simulated entity at rest. -/
def atRest (handle : Handle) (mass : Float) : Entity := { handle, mass }

/-- One step of time: the force changes the velocity, then the velocity moves the entity, and the
force is spent. -/
def integrate (entity : Entity) (dt : Float) : Entity :=
  let acceleration := entity.force.scale (1 / entity.mass)
  let velocity := entity.velocity + acceleration.scale dt
  { entity with
    velocity
    position := entity.position + velocity.scale dt
    force := .zero }

/-- Numbers that are not finite are written as null, as everywhere in JSON. -/
def toJson (entity : Entity) : Json :=
  .object
    [("handle", entity.handle.toJson),
     ("position", entity.position.toJson),
     ("velocity", entity.velocity.toJson),
     ("force", entity.force.toJson),
     ("scale", .float entity.scale),
     ("mass", .float entity.mass)]

end Entity

end Flowgraph
