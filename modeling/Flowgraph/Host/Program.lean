import Flowgraph.Host.Arguments
import Flowgraph.Host.Run
import Flowgraph.Template.Style

namespace Flowgraph

/-- What the program prints and how it exits. -/
structure Printed where
  exitCode : UInt8 := 0
  output : List String := []
  /-- The first line of the complaint, if there is one. -/
  complaint : Option String := none
deriving DecidableEq, Repr

/-- Why the program fails on valid arguments. -/
inductive ProgramError where
  | unreadableConfig (path : String)
  | invalidConfig (path : String)
  | noGraph
  | unreadableGraph (path : String)
  | unparsedGraph (path : String)
  | unbuiltGraph (path : String)
  | refusedExports (graph : GraphId)
  | brokenTick (tick : UInt64)
deriving DecidableEq, Repr

def ProgramError.message : ProgramError → String
  | .unreadableConfig path => s!"Failed to read config {path}"
  | .invalidConfig path => s!"Invalid config {path}"
  | .noGraph => "No graph given; pass at least one --graph <file>"
  | .unreadableGraph path => s!"Failed to read graph {path}"
  | .unparsedGraph path => s!"Failed to parse graph {path}"
  | .unbuiltGraph path => s!"Failed to build graph {path}"
  | .refusedExports graph => s!"Failed to apply exports to graph {graph.index}"
  | .brokenTick tick => s!"Tick {tick} failed"

namespace Program

/-- The text of a file, if it can be read. -/
abbrev Files := String → Option String

/-- The configuration of a file, or the default where no file is named. -/
def readConfig (files : Files) : Option String → Except ProgramError HostConfig
  | none => .ok {}
  | some path =>
    match files path with
    | none => .error (.unreadableConfig path)
    | some text =>
      match HostConfig.ofToml text with
      | .ok config => .ok config
      | .error _ => .error (.invalidConfig path)

/-- The graph of a file. -/
def readGraph (files : Files) (config : GraphConfig) (id : GraphId) (path : String) :
    Except ProgramError Graph :=
  match files path with
  | none => .error (.unreadableGraph path)
  | some text =>
    match Graph.ofText id config text with
    | .ok g => .ok g
    | .error .malformed => .error (.unparsedGraph path)
    | .error (.refused _) => .error (.unbuiltGraph path)

/-- A port as the list of templates shows it. -/
def portText (p : Port) : String := s!"{p.name}: {p.type.name}"

def portsText (ports : List Port) : String :=
  String.intercalate ", " (ports.map portText)

def templateLine (t : Template) : String :=
  let mark := if t.exported then " [export]" else ""
  s!"  {t.name}({portsText t.inputs}) -> ({portsText t.outputs}){mark}"

/-- The templates of a registry under the colours of their categories. -/
def templateLines (r : Registry) : List String :=
  r.categories.flatMap fun category =>
    s!"{category} ({(CategoryStyle.ofCategory category).background})" ::
      (r.inCategory category).map templateLine

/-- The lines of a text. -/
def lines (text : String) : List String :=
  (text.splitOn "\n")

/-- Loads the graphs and tunes them. -/
def prepare (files : Files) (config : HostConfig) (paths : List String) :
    Except ProgramError Behavior := do
  let graphs ← paths.zipIdx.mapM fun (path, index) => readGraph files config.graph ⟨index⟩ path
  let tuned := (Behavior.mk graphs).applyExports config.exports
  match tuned.result with
  | .ok _ => pure ⟨tuned.graphs⟩
  | .error _ => throw (.refusedExports ⟨0⟩)

/-- Does what valid arguments ask for, and gives the lines to print. -/
def perform (args : Arguments) (files : Files) (handle : Handle) :
    Except ProgramError (List String) := do
  let config ← readConfig files args.config
  if args.listTemplates then pure (templateLines Registry.builtin)
  else if args.graphs.isEmpty then throw .noGraph
  else
    let config :=
      { config with
        ticks := args.ticks.getD config.ticks
        keys := config.keys ++ args.keys }
    let behavior ← prepare files config args.graphs
    if args.exports then
      pure (lines (Json.array (behavior.exports.map Export.toJson)).pretty)
    else
      match behavior.run (Entity.atRest handle config.mass) config with
      | .ok report => pure (lines report.toJson.pretty)
      | .error failure => throw (.brokenTick failure.tick)

/-- How the program is used. -/
def usage : List String :=
  ["Run node graphs against a simulated entity",
   "",
   "  -g, --graph <file>      saved graph; repeat to attach several graphs",
   "  -c, --config <file>     configuration",
   "  -t, --ticks <count>     number of ticks to run",
   "  -k, --key <key>         key held for the whole run; repeatable",
   "      --exports           print the exports of the graphs and exit",
   "      --list-templates    print the built-in templates and exit",
   "  -h, --help              print this text and exit"]

/-- The program, given its arguments and the texts of the files they name. Reading files and
printing are left to the caller. -/
def run (texts : List String) (files : Files) (handle : Handle) : Printed :=
  match Arguments.parse texts with
  | .error .help => { output := usage }
  | .error .invalid => { exitCode := 2, complaint := some "error: invalid arguments" }
  | .ok args =>
    match perform args files handle with
    | .ok output => { output }
    | .error e => { exitCode := 1, complaint := some s!"Error: {e.message}" }

end Program

end Flowgraph
