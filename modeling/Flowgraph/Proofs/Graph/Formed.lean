import Flowgraph.Proofs.Graph.Change
import Flowgraph.Proofs.Saved.Loading
import Flowgraph.Proofs.Tick.Outcome

namespace Flowgraph

namespace Template

theorem length_fitDefaults (ports : List Port) (defaults : List Value) :
    (fitDefaults ports defaults).length = ports.length := by
  simp only [fitDefaults, Port.zeros, List.length_append, List.length_take, List.length_map,
    List.length_drop]
  omega

/-- A template with a default for each setting, which, if it is a constant one, has no inputs and
its settings for outputs. -/
structure Fitted (t : Template) : Prop where
  defaults : t.defaults.length = t.internals.length
  constant : t.kind = .constant → t.inputs = [] ∧ t.outputs = t.internals

namespace Declaration

/-- Whether a declaration puts down a template as it stands, instead of leaving it to the kind to
fit the parts together. -/
def isWhole : Declaration → Bool
  | .whole _ => true
  | _ => false

/-- The template of a declaration by kind has a default and a place for each of its settings. -/
theorem fitted {d : Declaration} (byKind : d.isWhole = false) : d.template.Fitted := by
  cases d with
  | plain | event => exact ⟨rfl, fun constant => by cases constant⟩
  | internal => exact ⟨length_fitDefaults _ _, fun constant => by cases constant⟩
  | constant => exact ⟨length_fitDefaults _ _, fun _ => ⟨rfl, rfl⟩⟩
  | whole => cases byKind

end Declaration

end Template

theorem Registry.fitted_declare {declarations : List Template.Declaration}
    (byKind : ∀ d ∈ declarations, d.isWhole = false) {t : Template}
    (member : t ∈ (declare {} declarations).templates) : t.Fitted := by
  rcases mem_templates_declare declarations member with old | ⟨d, declared, rfl⟩
  · cases old
  · exact Template.Declaration.fitted (byKind d declared)

/-- An `int` port stores integers only, and every port only what it accepts. -/
theorem PortType.of_stored {type : PortType} {v : Value} (stored : type.coerce? v = some v) :
    type.accepts v = true ∧ (type = .int → ∃ i, v = .int i) := by
  refine ⟨(coerce?_eq_some stored).1, ?_⟩
  rintro rfl
  cases v with
  | int i => exact ⟨i, rfl⟩
  | float x =>
    obtain ⟨_, same⟩ := Option.ite_none_right_eq_some.mp stored
    obtain ⟨i, _, wrong⟩ := Option.map_eq_some_iff.mp same
    cases wrong
  | _ => cases stored

namespace Node

/-- A node with a value for each setting and for each output, where a setting is the default of its
place or one that its port accepts, and on an `int` port an integer. -/
structure Formed (node : Node) : Prop where
  settings : node.internals.length = node.template.internals.length
  results : node.outputs.length = node.template.outputs.length
  value : ∀ (index : Nat) v, node.internals[index]? = some v →
    node.template.defaults[index]? = some v ∨
      ∃ port, node.template.internals[index]? = some port ∧ port.type.accepts v = true ∧
        (port.type = .int → ∃ i, v = .int i)

theorem formed_of_settled {node : Node} (settled : node.Settled) (fitted : node.template.Fitted)
    (results : node.outputs.length = node.template.outputs.length) : node.Formed := by
  refine ⟨settled.length.trans fitted.defaults, results, fun index v read => ?_⟩
  refine (settled.value index v read).imp_right ?_
  rintro ⟨port, atPort, stored⟩
  exact ⟨port, atPort, PortType.of_stored stored⟩

/-- A run stores a result for each output or none at all. -/
theorem lasting_results : Lasting fun node => node.outputs.length = node.template.outputs.length := by
  refine ⟨fun node inputs scene before => ?_, fun node active before => before⟩
  have template : (node.run inputs scene).node.template = node.template :=
    (congrArg Node.template (node.still_run inputs scene).1 :)
  rw [template]
  by_cases ran : ∃ activations, (node.run inputs scene).outcome = .ran activations
  · obtain ⟨activations, ran⟩ := ran
    obtain ⟨results, _, length, _, stored⟩ := node.run_ran inputs scene ran
    rw [stored, List.length_map, length]
  · rw [node.outputs_run inputs scene fun activations stored => ran ⟨activations, stored⟩]
    exact before

/-- A node that emits its settings does so whenever it is due and no input is turned away. -/
theorem run_constant {node : Node} (constant : node.template.kind = .constant)
    (due : node.active = true) {inputs : List Value}
    (valid : validates (Port.types node.template.inputs) inputs = true)
    (each : node.internals.length = node.template.outputs.length) (scene : Scene) :
    (node.run inputs scene).outcome = .ran (List.replicate node.template.outputs.length true) := by
  unfold run
  simp only [due, valid, Bool.not_true, Bool.false_eq_true, if_false, constant, emit, store,
    List.length_map, each, if_true, List.map_map, Function.comp_def, List.map_const']

end Node

namespace Graph

variable {g : Graph} {scene : Scene}

/-- What a new node has, every call keeps and no run takes away, every node of a reachable graph
has. -/
theorem Reachable.forall_nodes {motive : Node → Prop} (reach : g.Reachable)
    (made : ∀ registry id node, Made registry id node → motive node)
    (changed : ∀ old told new, Node.Change old told new → motive old → motive new)
    (lasting : Node.Lasting motive) : ∀ id node, g.node? id = some node → motive node := by
  refine Reachable.induct ?_ ?_ ?_ ?_ reach
  · intro graph registry config id node live
    exact made _ _ _ (fresh_empty graph registry config id node live)
  · intro graph registry config form _ id node live
    exact made _ _ _ ((fresh_load graph registry config form).1 id node live)
  · intro g call between _ before id node live
    rcases call.change_after between g live with ⟨name, t, found, _, rfl⟩ | ⟨old, atId, change⟩
    · exact made _ _ _ (made_stamp found id)
    · exact changed _ _ _ change (before id old atId)
  · intro g scene reach before
    exact forall_nodes_tick reach.integrity lasting before

/-- A node has a stored result for each output, at any time. -/
theorem Reachable.results (reach : g.Reachable) {id : NodeId} {node : Node}
    (live : g.node? id = some node) : node.outputs.length = node.template.outputs.length := by
  refine reach.forall_nodes ?_ ?_ Node.lasting_results id node live
  · intro registry id node made
    rw [made.unused]
    simp only [Node.stamp, Port.zeros, List.length_map]
  · intro old told new change before
    rw [change.outputs.1, change.outputs.2, before]

/-- Where all templates are fitted, every node is formed, whatever was done to the graph. -/
theorem Reachable.formed (reach : g.Reachable) (fitted : ∀ t ∈ g.registry.templates, t.Fitted)
    {id : NodeId} {node : Node} (live : g.node? id = some node) : node.Formed :=
  Node.formed_of_settled (reach.known live).2 (fitted _ (reach.registered live))
    (reach.results live)

/-- No saved form makes a load crash. -/
theorem answered_load {id : GraphId} {registry : Registry} {config : GraphConfig}
    {form : SavedGraph} (fitted : ∀ t ∈ registry.templates, t.Fitted) {e : GraphError}
    (failed : (load id registry config form).result = .error e) : e.isCrash = false := by
  have paired (saved : SavedNode) (_ : saved ∈ form.nodes) (t : Template)
      (found : registry.get? saved.template = some t) : t.defaults.length = t.internals.length :=
    (fitted t (List.mem_map_of_mem (Dictionary.mem_of_get? found))).defaults
  have first := error?_load id config form paired
  rw [Reply.error?, failed] at first
  exact SavedGraph.isCrash_of_mem_violations (List.mem_of_head? first.symm)

/-- A node of a constant template emits its settings each time it runs. -/
theorem Reachable.ran_of_constant (reach : g.Reachable)
    (fitted : ∀ t ∈ g.registry.templates, t.Fitted) {i : Nat} {e : Execution} {node : Node}
    (entry : (g.trace scene)[i]? = some e) (live : g.node? e.node = some node)
    (constant : node.template.kind = .constant) :
    e.outcome = .ran (List.replicate node.template.outputs.length true) := by
  obtain ⟨p, twin, rest, stage, _, run⟩ := run_of_trace reach.integrity entry
  have program := (stage.running reach.integrity).program
  have still : twin.still = node.still := still_of_program program.symm live run.live
  have template : twin.template = node.template := (congrArg Node.template still :)
  have internals : twin.internals = node.internals := (congrArg Node.internals still :)
  obtain ⟨bare, emitted⟩ := (fitted _ (reach.registered live)).constant constant
  have valid : validates (Port.types twin.template.inputs) e.inputs = true := by
    rw [run.inputs]
    simp only [resolveInputs, run.live, template, bare]
    rfl
  have each : twin.internals.length = twin.template.outputs.length := by
    rw [internals, template, emitted, (reach.formed fitted live).settings]
  rw [run.outcome, Node.run_constant (template ▸ constant) run.active valid each, template]

/-- Where every template is declared by its kind, whatever is done to a graph leaves its nodes
formed: each has a value for each setting and each output, and a setting is the default of its place
or one that its port accepts, an integer where the port is an `int` one. So no call and no load ever
reaches for a setting in a place that is not there, and a node of a constant template never fails a
run. -/
theorem formed_throughout {declarations : List Template.Declaration}
    (byKind : ∀ d ∈ declarations, d.isWhole = false) (reach : g.Reachable)
    (declared : g.registry = Registry.declare {} declarations) :
    (∀ id node, g.node? id = some node → node.Formed) ∧
      (∀ (call : Call) e, call.error? g = some e → e.isCrash = false) ∧
      (∀ id config form e, (load id g.registry config form).result = .error e →
        e.isCrash = false) ∧
      ∀ scene (i : Nat) e node, (g.trace scene)[i]? = some e → g.node? e.node = some node →
        node.template.kind = .constant →
        e.outcome = .ran (List.replicate node.template.outputs.length true) := by
  have fitted : ∀ t ∈ g.registry.templates, t.Fitted := by
    rw [declared]
    exact fun t => Registry.fitted_declare byKind
  refine ⟨fun id node live => reach.formed fitted live, fun call e failed => ?_,
    fun id config form e failed => answered_load fitted failed,
    fun scene i e node entry live constant => reach.ran_of_constant fitted entry live constant⟩
  cases e with
  | missingSetting id index =>
    obtain ⟨node, live, outside, inside⟩ := (call.atomic reach.integrity failed).2 id index rfl
    have settings := (reach.formed fitted live).settings
    omega
  | _ => rfl

/-- A constant with a default that its port refuses and too few of them, and a node that can be
tuned by name. -/
def dials : List Template.Declaration :=
  [.constant "flow" "Pair" [⟨"count", .int, none⟩, ⟨"label", .string, none⟩] [.bool true] false,
    .internal "flow" "Dial" [] [⟨"name", .string, none⟩, ⟨"value", .int, none⟩]
      [.string "speed", .int 0, .null] [⟨"value", .int, none⟩]
      (fun _ context => { outcome := .results ((context.internals.drop 1).map (⟨·, true⟩)) }) true]

def tuned : Graph :=
  (empty ⟨0⟩ (Registry.declare {} dials) {}).afterAll
    [.addNode "Pair", .addNode "Dial", .setInternal ⟨⟨0⟩, ⟨0⟩⟩ 1 (.string "wide"),
      .applyExports [("speed", .float 3)], .activate ⟨⟨0⟩, ⟨0⟩⟩]

theorem formed_throughout_tuned :
    (∀ d ∈ dials, d.isWhole = false) ∧ tuned.Reachable ∧
      tuned.registry = Registry.declare {} dials ∧
      (∃ node, tuned.node? ⟨0⟩ = some node ∧
        node.internals = [.bool true, .string "wide"] ∧ node.Formed) ∧
      (∃ node, tuned.node? ⟨1⟩ = some node ∧
        node.internals = [.string "speed", .int 3] ∧ node.Formed) ∧
      ∃ e, (tuned.trace quiet)[0]? = some e ∧ e.node = ⟨0⟩ ∧ e.outcome = .ran [true, true] := by
  have byKind : ∀ d ∈ dials, d.isWhole = false := by
    simp only [dials, List.forall_mem_cons, Template.Declaration.isWhole, true_and]
    exact fun _ member => absurd member List.not_mem_nil
  have reach : tuned.Reachable := (Reachable.empty _ _ _).afterAll _
  have declared : tuned.registry = Registry.declare {} dials := registry_afterAll _ _
  obtain ⟨formed, _, _, runs⟩ := formed_throughout byKind reach declared
  -- tuning maps over all slots, which only unfolding everything evaluates
  have pair : ∃ node, tuned.node? ⟨0⟩ = some node ∧
      node.internals = [.bool true, .string "wide"] ∧ node.template.kind = .constant ∧
      node.template.outputs.length = 2 := by
    with_unfolding_all exact ⟨_, rfl, rfl, rfl, rfl⟩
  have dial : ∃ node, tuned.node? ⟨1⟩ = some node ∧
      node.internals = [.string "speed", .int 3] := by
    with_unfolding_all exact ⟨_, rfl, rfl⟩
  have ran : ∃ e, (tuned.trace quiet)[0]? = some e ∧ e.node = ⟨0⟩ := by
    with_unfolding_all exact ⟨_, rfl, rfl⟩
  obtain ⟨first, atFirst, pairs, constant, two⟩ := pair
  obtain ⟨second, atSecond, dialed⟩ := dial
  obtain ⟨e, entry, own⟩ := ran
  have emitted := runs quiet 0 e first entry (own ▸ atFirst) constant
  rw [two] at emitted
  exact ⟨byKind, reach, declared, ⟨first, atFirst, pairs, formed _ _ atFirst⟩,
    ⟨second, atSecond, dialed, formed _ _ atSecond⟩, e, entry, own, emitted⟩

end Graph

end Flowgraph
