import Flowgraph.Graph.Basic
import Flowgraph.Toml.Document

namespace Flowgraph

/-- All that a run is configured by, with what holds where nothing is written. -/
structure HostConfig where
  /-- What to log, in the words of the log's filter. -/
  logFilter : Option String := none
  graph : GraphConfig := {}
  ticks : UInt64 := 60
  /-- Seconds of a tick. -/
  delta : Float := 1 / 60
  /-- Keys that are held for the whole run. -/
  keys : List String := []
  mass : Float := 1
  /-- Tuned values by export name. -/
  exports : Dictionary Value := []

/-- Why a text is no configuration. -/
inductive ConfigError where
  /-- The text is no TOML, or not of this shape. -/
  | malformed
  | badDelta (x : Float)
  | badMass (x : Float)

def ConfigError.message : ConfigError → String
  | .malformed => "malformed configuration"
  | .badDelta x => s!"run.delta must be a non-negative number, got {Number.plain.write x}"
  | .badMass x => s!"entity.mass must be positive, got {Number.plain.write x}"

namespace HostConfig

/-- What is written for the fields of a section. One written as an array may hold more items than
the section has fields. -/
def section? (names : List String) (j : Json) : Option (List (Option Json)) :=
  match j with
  | .array items => (Json.array (items.take names.length)).fields? names
  | j => j.fields? names

/-- The section on graphs. -/
def graphOfJson? (j : Json) : Option GraphConfig := do
  match ← section? ["iteration_cap_factor"] j with
  | [factor] => some { capFactor := ← Json.orDefault? Json.asNat64? 10 factor }
  | _ => none

/-- Adds the section on the run. -/
def addRun? (config : HostConfig) (j : Json) : Option HostConfig := do
  match ← section? ["ticks", "delta", "keys"] j with
  | [ticks, delta, keys] =>
    some
      { config with
        ticks := (← Json.orDefault? Json.asNat64? config.ticks.toNat ticks).toUInt64
        delta := ← Json.orDefault? Value.floatOfJson? config.delta delta
        keys := ← Json.orDefault? (Json.asList? Json.asString?) config.keys keys }
  | _ => none

/-- Adds the section on the entity. -/
def addEntity? (config : HostConfig) (j : Json) : Option HostConfig := do
  match ← section? ["mass"] j with
  | [mass] => some { config with mass := ← Json.orDefault? Value.floatOfJson? config.mass mass }
  | _ => none

/-- The tuned values, each a literal. -/
def exportsOfJson? : Json → Option (Dictionary Value)
  | .object entries =>
    some (Dictionary.ofList (entries.map fun (name, j) => (name, Value.ofLiteral j.normalize)))
  | _ => none

/-- Reads the shape of a configuration. -/
def ofJson? (j : Json) : Option HostConfig := do
  match ← section? ["log_filter", "graph", "run", "entity", "exports"] j with
  | [logFilter, graph, run, entity, exports] =>
    let config : HostConfig :=
      { logFilter := ← Json.orDefault? (Json.optional? Json.asString?) none logFilter
        graph := ← Json.orDefault? graphOfJson? {} graph
        exports := ← Json.orDefault? exportsOfJson? [] exports }
    let config ← Json.orDefault? config.addRun? config run
    Json.orDefault? config.addEntity? config entity
  | _ => none

/-- Checks the numbers, the seconds of a tick first. -/
def check (config : HostConfig) : Except ConfigError HostConfig :=
  if !(config.delta.isFinite && config.delta ≥ 0) then .error (.badDelta config.delta)
  else if !(config.mass.isFinite && config.mass > 0) then .error (.badMass config.mass)
  else .ok config

/-- Reads a configuration. -/
def ofToml (text : String) : Except ConfigError HostConfig :=
  match (Toml.parse? text).bind ofJson? with
  | some config => config.check
  | none => .error .malformed

end HostConfig

end Flowgraph
