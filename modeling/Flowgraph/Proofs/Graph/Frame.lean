import Flowgraph.Proofs.Graph.Node
import Flowgraph.Proofs.Graph.Slots

namespace Flowgraph

namespace Graph

/-- All of a graph that execution only reads. -/
def program (g : Graph) : Graph := g.strip Node.still

/-- The wiring of a graph, and which node is of which template. -/
def skeleton (g : Graph) : Graph := g.strip Node.bare

theorem skeleton_eq_of_program {g h : Graph} (same : g.program = h.program) :
    g.skeleton = h.skeleton := by
  have again := congrArg (strip Node.bare) same
  simp only [program, strip_strip] at again
  exact again

/-- Nodes of graphs with one program differ at most in what is due and what is stored. -/
theorem still_of_program {g h : Graph} {id : NodeId} {node twin : Node}
    (same : g.program = h.program) (live : g.node? id = some node)
    (atId : h.node? id = some twin) : twin.still = node.still := by
  have read := map_node?_of_strip same id
  rw [live, atId] at read
  exact (Option.some.inj read).symm

theorem edge?_of_program {g h : Graph} (same : h.program = g.program) : h.edge? = g.edge? := by
  have edges : h.edges = g.edges := (congrArg Graph.edges same :)
  funext id
  simp only [edge?, edges]

theorem outgoing_of_program {g h : Graph} (same : h.program = g.program) :
    h.outgoing = g.outgoing := by
  have adjacency : h.adjacency = g.adjacency := (congrArg Graph.adjacency same :)
  funext id
  simp only [outgoing, adjacentTo, adjacency, edge?_of_program same]

variable (g : Graph)

/-- What holds of a graph and of the result of a call holds whether or not the call is refused. -/
theorem whenIdle_graph {α : Type} (motive : Graph → Prop) (call : Reply α) (before : motive g)
    (after : motive call.graph) : motive (g.whenIdle call).graph := by
  unfold whenIdle
  split
  · exact after
  · exact before

theorem program_activate (ref : NodeRef) : (g.activate ref).graph.program = g.program := by
  apply whenIdle_graph g (·.program = g.program) _ rfl
  cases found : g.resolve ref with
  | error => rfl
  | ok node =>
    simp only
    split
    · rfl
    · exact strip_setNode (resolve_eq_ok.mp found).2 rfl

theorem program_notifyWhere (holds : Template → Bool) (payload : List Value) :
    (g.notifyWhere holds payload).graph.program = g.program := by
  apply whenIdle_graph g (·.program = g.program) _ rfl
  apply strip_mapNodes
  intro node
  split <;> rfl

theorem program_activateSources : g.activateSources.graph.program = g.program := by
  apply whenIdle_graph g (·.program = g.program) _ rfl
  apply strip_mapNodes
  intro node
  split <;> rfl

/-- Settings change nothing but settings, however they are written. -/
theorem skeleton_setInternal (ref : NodeRef) (index : Nat) (value : Value) :
    (g.setInternal ref index value).graph.skeleton = g.skeleton := by
  apply whenIdle_graph g (·.skeleton = g.skeleton) _ rfl
  cases found : g.resolve ref with
  | error => rfl
  | ok node =>
    simp only
    split
    · rfl
    split
    · rfl
    rename_i stored _
    cases changed : node.withInternal? index stored with
    | none => rfl
    | some after =>
      exact strip_setNode (resolve_eq_ok.mp found).2 (Node.bare_withInternal changed)

theorem bare_tuning (node : Node) (values : Dictionary Value) :
    ((node.tune values).node node).bare = node.bare := by
  cases tuned : node.tune values with
  | untouched | misfit | missing => rfl
  | tuned after =>
    obtain ⟨index, stored, changed⟩ := Node.withInternal_of_tuned tuned
    exact Node.bare_withInternal changed

theorem skeleton_tuneWhere (holds : Node → Bool) (values : Dictionary Value) :
    (g.tuneWhere holds values).graph.skeleton = g.skeleton := by
  apply strip_mapNodes
  intro node
  by_cases held : holds node
  · simpa only [held, if_true] using bare_tuning node values
  · simp only [held]
    rfl

theorem skeleton_applyExports (values : Dictionary Value) :
    (g.applyExports values).graph.skeleton = g.skeleton := by
  apply whenIdle_graph g (·.skeleton = g.skeleton) _ rfl
  split
  · exact g.skeleton_tuneWhere _ values
  · exact g.skeleton_tuneWhere _ values

end Graph

end Flowgraph
