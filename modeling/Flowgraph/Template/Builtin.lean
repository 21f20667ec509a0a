import Flowgraph.Template.Registry
import Flowgraph.Value.Literal

namespace Flowgraph.Builtin

open Template

/-- Results that all activate. -/
def active (values : List Value) : Evaluation :=
  { outcome := .results (values.map fun value => ⟨value, true⟩) }

/-- No results and no failure. -/
def done (commands : List Entity.Command) : Evaluation :=
  { outcome := .results [], commands }

def failed (reason : String) : Evaluation :=
  { outcome := .failed reason }

/-- The first input, null if there is none. -/
def firstInput (inputs : List Value) : Value := inputs.head?.getD .null

/-- Computes with a vector input, or fails by the name of the port. -/
def withVec2 (inputs : List Value) (index : Nat) (name : String) (use : Vec2 → Evaluation) :
    Evaluation :=
  match Inputs.vec2? inputs index with
  | some v => use v
  | none => failed s!"input `{name}` is not a Vec2"

/-- Gives a command to the entity if the first input is its handle, and else does nothing. -/
def command (inputs : List Value) (context : EvaluationContext) (c : Entity.Command) :
    Evaluation :=
  done (if context.controls (firstInput inputs) then [c] else [])

/-- `T` fires while the key is held and `F` while it is not; `int` only shows which. A lookup that
crashes takes the evaluation with it. -/
def keyResults : Except (Option String) Bool → Evaluation
  | .ok pressed =>
    { outcome := .results
        [⟨.bool pressed, pressed⟩, ⟨.bool !pressed, !pressed⟩,
         ⟨.int (if pressed then 1 else 0), false⟩] }
  | .error text => { outcome := .panicked text }

/-- The velocity that is read. A reading that crashes takes the evaluation with it. -/
def velocityResults : Except (Option String) Vec2 → Evaluation
  | .ok velocity => active [velocity.toValue]
  | .error text => { outcome := .panicked text }

/-- An integer, if the input is one and not a double. -/
def exactInt? : Option Value → Option Int64
  | some (.int i) => some i
  | _ => none

/-- Exact arithmetic where both inputs are integers and the result is one too; else in doubles. -/
def arithmetic (exact : Int → Int → Int) (rounded : Float → Float → Float)
    (inputs : List Value) : Value :=
  let inDoubles := Value.float (rounded (Inputs.number inputs 0) (Inputs.number inputs 1))
  match exactInt? inputs[0]?, exactInt? inputs[1]? with
  | some a, some b =>
    let result := exact a.toInt b.toInt
    if Int64.minValue.toInt ≤ result ∧ result ≤ Int64.maxValue.toInt then .int (.ofInt result)
    else inDoubles
  | _, _ => inDoubles

def entityPort : Port := ⟨"entity", .object, none⟩

def keyOutputs : List Port := [⟨"T", .bool, none⟩, ⟨"F", .bool, none⟩, ⟨"int", .int, none⟩]

def numberPair : List Port := [⟨"a", .number, none⟩, ⟨"b", .number, none⟩]

def entityTemplates : List Declaration :=
  [.plain "entity" "GetControlledEntity" [] [entityPort]
     (fun _ context => active [.handle context.entity.handle]) false,
   .plain "entity" "SetEntityVelocity" [entityPort, ⟨"v", .object, none⟩] []
     (fun inputs context =>
       withVec2 inputs 1 "v" fun v => command inputs context (.setVelocity v)) false,
   .plain "entity" "SetEntityVelocityX" [entityPort, ⟨"x", .number, none⟩] []
     (fun inputs context => command inputs context (.setVelocityX (Inputs.number inputs 1))) false,
   .plain "entity" "ApplyEntityForce" [entityPort, ⟨"force", .object, none⟩] []
     (fun inputs context =>
       withVec2 inputs 1 "force" fun f => command inputs context (.applyForce f)) false,
   .plain "entity" "GetEntityVelocity" [entityPort] [⟨"v", .object, none⟩]
     (fun inputs context =>
       let target := firstInput inputs
       if context.controls target then velocityResults context.entity.reading
       else failed s!"cannot resolve entity {target.display}") false,
   .plain "entity" "SetEntityScale" [entityPort, ⟨"scale", .number, none⟩] []
     (fun inputs context => command inputs context (.setScale (Inputs.number inputs 1))) false]

/-- The event that tells of a tick of the clock. -/
def onTick : String := "OnTick"

/-- The event that tells of a collision. -/
def onCollide : String := "OnCollide"

def eventTemplates : List Declaration :=
  [.event "event" onTick [⟨"dt", .float, none⟩],
   .event "event" onCollide [⟨"normal", .object, none⟩, entityPort]]

def inputTemplates : List Declaration :=
  [.internal "input" "KeyPressed" [] [⟨"key", .string, some "key"⟩] [.string "A"] keyOutputs
     (fun _ context => keyResults (context.keys.look (context.internalString 0))) false,
   .plain "input" "VarKeyPressed" [⟨"key", .string, none⟩] keyOutputs
     (fun inputs context =>
       keyResults (context.keys.look ((firstInput inputs).asString?.getD ""))) false,
   .internal "input" "ExportKey" [] [⟨"name", .string, none⟩, ⟨"key", .string, some "key"⟩]
     [.string "export", .string "a"] [⟨"key", .string, none⟩]
     (fun _ context => active [.string (context.internalString 1)]) true]

def logicTemplates : List Declaration :=
  [.plain "logic" "Mux2" [⟨"index", .int, none⟩, ⟨"0", .any, none⟩, ⟨"1", .any, none⟩]
     [⟨"out", .any, none⟩]
     (fun inputs _ =>
       let index := (firstInput inputs).asInt?.getD 0
       active [inputs[if index = 0 then 1 else 2]?.getD .null]) false]

def mathTemplates : List Declaration :=
  [.constant "math" "ConstInt" [⟨"int", .int, none⟩] [.int 0] false,
   .plain "math" "Subtract" numberPair [⟨"a-b", .number, none⟩]
     (fun inputs _ => active [arithmetic (· - ·) (· - ·) inputs]) false,
   .plain "math" "Multiply" numberPair [⟨"a*b", .number, none⟩]
     (fun inputs _ => active [arithmetic (· * ·) (· * ·) inputs]) false,
   .plain "math" "PrintVec2" [⟨"v", .object, none⟩] []
     (fun inputs _ => { outcome := .results [], printed := [firstInput inputs] }) false,
   .plain "math" "Vec2" [⟨"x", .number, none⟩, ⟨"y", .number, none⟩] [⟨"v", .object, none⟩]
     (fun inputs _ =>
       active [(Vec2.mk (Inputs.number inputs 0) (Inputs.number inputs 1)).toValue]) false,
   .plain "math" "Vec2Components" [⟨"v", .object, none⟩]
     [⟨"x", .number, none⟩, ⟨"y", .number, none⟩]
     (fun inputs _ => withVec2 inputs 0 "v" fun v => active [.float v.x, .float v.y]) false,
   .plain "math" "ScaleVec2" [⟨"v", .object, none⟩, ⟨"s", .number, none⟩] [⟨"v", .object, none⟩]
     (fun inputs _ =>
       withVec2 inputs 0 "v" fun v => active [(v.scale (Inputs.number inputs 1)).toValue]) false,
   .plain "math" "Normalize" [⟨"v", .object, none⟩] [⟨"n", .object, none⟩]
     (fun inputs _ => withVec2 inputs 0 "v" fun v => active [v.normalize.toValue]) false]

/-- A template whose value is tuned from outside under a name; further settings describe it. -/
def tunable (name : String) (type : PortType) (settings : List Port) (defaults : List Value) :
    Declaration :=
  .internal "math" name [] ([⟨"name", .string, none⟩, ⟨"value", type, none⟩] ++ settings) defaults
    [⟨"value", type, none⟩]
    (fun _ context => active [context.internals[1]?.getD .null]) true

def exportTemplates : List Declaration :=
  [tunable "ExportInt" .int [] [.string "export", .int 0],
   tunable "ExportFloat" .float [] [.string "export", .float 0],
   tunable "ExportIntRange" .int [⟨"min", .int, none⟩, ⟨"max", .int, none⟩]
     [.string "export", .int 0, .int 0, .int 10]]

end Flowgraph.Builtin

namespace Flowgraph

/-- The registry of the built-in templates. -/
def Registry.builtin : Registry :=
  ({} : Registry).declare
    (Builtin.entityTemplates ++ Builtin.eventTemplates ++ Builtin.inputTemplates
      ++ Builtin.logicTemplates ++ Builtin.mathTemplates ++ Builtin.exportTemplates)

end Flowgraph
