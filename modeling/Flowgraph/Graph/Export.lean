import Flowgraph.Graph.Basic

namespace Flowgraph

/-- A tunable value, as shown to the outside. A node of an exported template is known by the string
in its setting `name`; the setting after that is the value, and those after that describe it. -/
structure Export where
  name : String
  value : Value
  /-- The template of the node. -/
  template : String
  /-- The settings after the value, such as the bounds of a range. -/
  settings : List (String × Value)

namespace Export

/-- The setting that holds the name. -/
def namePort : String := "name"

/-- Settings are left out where there are none. -/
def toJson (e : Export) : Json :=
  .object
    ([("name", .string e.name), ("value", e.value.toTagged), ("template", .string e.template)] ++
      if e.settings.isEmpty then []
      else
        [("settings",
          .array (e.settings.map fun (name, value) => .array [.string name, value.toTagged]))])

/-- A setting is written as its name and its value. -/
def settingOfJson? : Json → Option (String × Value)
  | .array [name, value] => do some (← name.asString?, ← Value.ofTagged? value)
  | _ => none

def ofJson? (j : Json) : Option Export := do
  match ← j.fields? ["name", "value", "template", "settings"] with
  | [some name, some value, some template, settings] =>
    some
      { name := ← name.asString?
        value := ← Value.ofTagged? value
        template := ← template.asString?
        settings := ← Json.orDefault? (Json.asList? settingOfJson?) [] settings }
  | _ => none

end Export

/-- What tuned values mean for one node. -/
inductive Tuning where
  /-- The node is not exported, or no value is meant for it. -/
  | untouched
  /-- The value does not fit the port. -/
  | misfit (value : Value) (expected : PortType)
  /-- The value fits, but the node holds no value in its place. -/
  | missing (index : Nat)
  | tuned (node : Node)

namespace Node

/-- The export of a node that has one. -/
def export? (node : Node) : Option Export := do
  if !node.template.exported then none
  else
    let position ← node.template.internalIndex? Export.namePort
    let name ← (← node.internals[position]?).asString?
    some
      { name
        value := node.internals[position + 1]?.getD .null
        template := node.template.name
        settings :=
          (node.template.internals.zip node.internals).drop (position + 2)
            |>.map fun (port, value) => (port.name, value) }

/-- The position and the port of the tunable value, and the name it is tuned by. -/
def tunable? (node : Node) : Option (Nat × Port × String) := do
  if !node.template.exported then none
  else
    let position ← node.template.internalIndex? Export.namePort
    let name ← (← node.internals[position]?).asString?
    let port ← node.template.internals[position + 1]?
    some (position + 1, port, name)

/-- Tunes one node. -/
def tune (node : Node) (values : Dictionary Value) : Tuning :=
  match node.tunable? with
  | none => .untouched
  | some (index, port, name) =>
    match Dictionary.get? values name with
    | none => .untouched
    | some value =>
      match port.type.coerce? value with
      | none => .misfit value port.type
      | some stored =>
        match node.withInternal? index stored with
        | none => .missing index
        | some changed => .tuned changed

end Node

namespace Tuning

/-- The node afterwards. -/
def node (before : Node) : Tuning → Node
  | .tuned node => node
  | _ => before

def isTuned : Tuning → Bool
  | .tuned _ => true
  | _ => false

/-- The place that was to be tuned and is missing. -/
def missing? : Tuning → Option Nat
  | .missing index => some index
  | _ => none

/-- What is to be noticed when one node is tuned. -/
def notice? : Tuning → Option Notice
  | .misfit value expected => some (.exportMisfit value expected)
  | _ => none

end Tuning

namespace Graph

/-- The exports of a graph, oldest node first. -/
def exports (g : Graph) : List Export := g.nodeList.filterMap Node.export?

/-- Tunes the nodes that a predicate holds of; how many were tuned. -/
def tuneWhere (g : Graph) (holds : Node → Bool) (values : Dictionary Value) : Reply Nat :=
  let tuning (node : Node) := if holds node then node.tune values else .untouched
  accept
    { g with nodes := g.nodes.map (·.map fun node => (tuning node).node node) }
    (g.nodeList.countP fun node => (tuning node).isTuned)
    (g.nodeList.filterMap fun node => (tuning node).notice?)

/-- The first node that should be tuned in a place where it holds no value, and that place. -/
def firstMissing? (g : Graph) (values : Dictionary Value) : Option (NodeId × Nat) :=
  g.nodeList.findSome? fun node => (node.tune values).missing?.map fun index => (node.id, index)

/-- Tunes every node that a value is meant for; how many were tuned. A node that holds no value in
the place to be tuned ends the call, and the nodes before it have been tuned by then. -/
def applyExports (g : Graph) (values : Dictionary Value) : Reply Nat :=
  g.whenIdle <|
    match g.firstMissing? values with
    | none => g.tuneWhere (fun _ => true) values
    | some (id, index) =>
      let before := g.tuneWhere (fun node => node.id.index < id.index) values
      { before with result := .error (.missingSetting id index) }

end Graph

end Flowgraph
