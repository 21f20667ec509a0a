import Flowgraph.Proofs.Graph.Edits
import Flowgraph.Proofs.Tick.Frame

namespace Flowgraph.Graph

/-- A call that may change a graph. -/
inductive Call where
  | addNode (template : String)
  | removeNode (ref : NodeRef)
  | addEdge (source : NodeRef) (output : Nat) (target : NodeRef) (input : Nat)
  | removeEdge (id : EdgeId)
  | setInternal (ref : NodeRef) (index : Nat) (value : Value)
  | activate (ref : NodeRef)
  | notify (name : String) (payload : List Value)
  | notifyCategory (category : String) (payload : List Value)
  | notifyTick (dt : Float)
  | notifyCollision (normal : Vec2) (other : Handle)
  | activateSources
  | applyExports (values : Dictionary Value)
  | tick (scene : Scene)
  | step (scene : Scene)

/-- The graph after a call, whatever its result. -/
def Call.after (g : Graph) : Call → Graph
  | .addNode template => (g.addNode template).graph
  | .removeNode ref => (g.removeNode ref).graph
  | .addEdge source output target input => (g.addEdge source output target input).graph
  | .removeEdge id => (g.removeEdge id).graph
  | .setInternal ref index value => (g.setInternal ref index value).graph
  | .activate ref => (g.activate ref).graph
  | .notify name payload => (g.notify name payload).graph
  | .notifyCategory category payload => (g.notifyCategory category payload).graph
  | .notifyTick dt => (g.notifyTick dt).graph
  | .notifyCollision normal other => (g.notifyCollision normal other).graph
  | .activateSources => g.activateSources.graph
  | .applyExports values => (g.applyExports values).graph
  | .tick scene => (g.tick scene).graph
  | .step scene => (g.step scene).graph

/-- A graph that calls lead to from an empty or a loaded one. -/
inductive Reachable : Graph → Prop
  | empty (id : GraphId) (registry : Registry) (config : GraphConfig) :
      Reachable (Graph.empty id registry config)
  | load {id : GraphId} {registry : Registry} {config : GraphConfig} {form : SavedGraph} :
      (Graph.load id registry config form).result = .ok () →
      Reachable (Graph.load id registry config form).graph
  | call {g : Graph} : Reachable g → (call : Call) → Reachable (call.after g)

/-- The graph after call upon call. -/
def afterAll (g : Graph) (calls : List Call) : Graph :=
  calls.foldl (fun g call => call.after g) g

theorem Reachable.afterAll {g : Graph} (reach : g.Reachable) (calls : List Call) :
    (g.afterAll calls).Reachable := by
  induction calls generalizing g with
  | nil => exact reach
  | cons call rest ih => exact ih (reach.call call)

/-- No call destroys integrity. -/
theorem Integrity.after {g : Graph} (whole : g.Integrity) (call : Call) :
    (call.after g).Integrity := by
  cases call with
  | addNode template => exact whole.addNode template
  | removeNode ref => exact whole.removeNode ref
  | addEdge source output target input => exact whole.addEdge source output target input
  | removeEdge id => exact whole.removeEdge id
  | setInternal ref index value =>
    exact whole.of_skeleton (g.skeleton_setInternal ref index value).symm
  | applyExports values => exact whole.of_skeleton (g.skeleton_applyExports values).symm
  | activate ref => exact whole.of_program (g.program_activate ref)
  | notify | notifyCategory | notifyTick | notifyCollision =>
    exact whole.of_program (g.program_notifyWhere _ _)
  | activateSources => exact whole.of_program g.program_activateSources
  | tick scene => exact whole.of_program (g.program_tick scene)
  | step scene => exact whole.of_program (g.program_step scene)

/-- The nodes, the edges, the lists at the nodes and the counters of a graph agree after any calls,
a tick that was cut short among them. -/
theorem Reachable.integrity {g : Graph} (reach : g.Reachable) : g.Integrity := by
  induction reach with
  | empty id registry config => exact integrity_empty id registry config
  | load => exact integrity_load _ _ _ _
  | call _ call ih => exact ih.after call

/-- Slot by slot, the five views of a reachable graph say the same: the arena of nodes, the arena of
edges, the two lists of each node, and the counters. -/
theorem views_agree {g : Graph} (reach : g.Reachable) :
    g.adjacency.size = g.nodes.size ∧
      (∀ (slot : Nat) node, g.nodes[slot]? = some (some node) → node.id = ⟨slot⟩) ∧
      (∀ id edge, g.edge? id = some edge → ∃ source target,
        g.node? edge.source = some source ∧ g.node? edge.target = some target ∧
          edge.output < source.template.outputs.length ∧
          edge.input < target.template.inputs.length) ∧
      (∀ a b edge edge', g.edge? a = some edge → g.edge? b = some edge' →
        edge.target = edge'.target → edge.input = edge'.input → a = b) ∧
      (∀ (slot : Nat) node, g.nodes[slot]? = some (some node) → ∃ lists,
        g.adjacency[slot]? = some lists ∧ g.Lists lists.incoming (·.target = node.id) ∧
          g.Lists lists.outgoing (·.source = node.id)) ∧
      (∀ slot : Nat, g.nodes[slot]? = some none → g.adjacency[slot]? = some {}) ∧
      g.liveNodes = g.nodeList.length ∧ g.liveEdges = g.edgeList.length := by
  have whole := reach.integrity
  have lists {slot : Nat} {node : Option Node} (read : g.nodes[slot]? = some node) :
      g.adjacency[slot]? = some (g.adjacentTo ⟨slot⟩) := by
    have bound : slot < g.adjacency.size := by
      rw [whole.adjacency_size]
      exact (Array.getElem?_eq_some_iff.mp read).1
    simp only [adjacentTo, Array.getElem?_eq_getElem bound, Option.getD_some]
  refine ⟨whole.adjacency_size, ?_, whole.ends, whole.single, ?_, ?_, whole.liveNodes,
    whole.liveEdges⟩
  · intro slot node read
    exact whole.own_id ⟨slot⟩ node (node?_eq_some.mpr read)
  · intro slot node read
    have live : g.node? ⟨slot⟩ = some node := node?_eq_some.mpr read
    rw [whole.own_id ⟨slot⟩ node live]
    exact ⟨_, lists read, whole.incoming _ ⟨node, live⟩, whole.outgoing _ ⟨node, live⟩⟩
  · intro slot read
    have dead : ¬ g.Live ⟨slot⟩ := by
      rintro ⟨node, live⟩
      cases read.symm.trans (node?_eq_some.mp live)
    rw [lists read, whole.unlisted ⟨slot⟩ dead]

/-- A seed that reaches a join on two ways, of which the second is a step longer. A node before them
and its edge are removed again. -/
def detour : Graph :=
  let seed := Template.Declaration.constant "flow" "Seed" [⟨"on", .bool, none⟩] [.bool true] false
  let relay := Template.Declaration.plain "flow" "Relay" [⟨"in", .any, none⟩] [⟨"out", .any, none⟩]
    (fun inputs _ => { outcome := .results (inputs.map (⟨·, true⟩)) }) false
  let join := Template.Declaration.plain "flow" "Join" [⟨"a", .any, none⟩, ⟨"b", .any, none⟩]
    [⟨"both", .any, none⟩] (fun inputs _ => { outcome := .results [⟨.array inputs, true⟩] }) false
  let ref (slot : Nat) : NodeRef := ⟨⟨0⟩, ⟨slot⟩⟩
  (empty ⟨0⟩ (Registry.declare {} [seed, relay, join]) {}).afterAll
    [.addNode "Relay", .addNode "Seed", .addNode "Relay", .addNode "Join",
      .addEdge (ref 0) 0 (ref 2) 0, .removeNode (ref 0), .addEdge (ref 1) 0 (ref 3) 0,
      .addEdge (ref 1) 0 (ref 2) 0, .addEdge (ref 2) 0 (ref 3) 1, .activate (ref 1)]

/-- A scene in which nothing happens. -/
def quiet : Scene := ⟨.atRest ⟨⟨0⟩, "entity"⟩ 1, {}, {}⟩

theorem reachable_detour : detour.Reachable := (Reachable.empty _ _ _).afterAll _

theorem views_agree_detour :
    detour.Reachable ∧ detour.nodes[0]? = some none ∧ detour.adjacency[0]? = some ⟨[], []⟩ ∧
      detour.adjacency.size = detour.nodes.size ∧ detour.liveNodes = detour.nodeList.length ∧
      detour.liveEdges = detour.edgeList.length := by
  have empty : detour.nodes[0]? = some none := rfl
  obtain ⟨size, _, _, _, _, removed, nodes, edges⟩ := views_agree reachable_detour
  exact ⟨reachable_detour, empty, removed 0 empty, size, nodes, edges⟩

end Flowgraph.Graph
