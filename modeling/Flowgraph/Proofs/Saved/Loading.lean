import Mathlib.Data.List.Forall2
import Flowgraph.Proofs.Graph.Obstacles
import Flowgraph.Proofs.Saved.Positions
import Flowgraph.Proofs.Saved.Violations

namespace Flowgraph

/-- A node of a template with the settings that were saved, where its ports take them. -/
def SavedNode.build (saved : SavedNode) (t : Template) : Node :=
  { Node.stamp ⟨0⟩ t with
    internals := Graph.restoreSettings t.defaults t.internals saved.settings }

namespace Graph

open SavedGraph (unregistered)

variable {g : Graph} {registry : Registry} {form : SavedGraph}

/-- The node that takes the place of another in a loaded graph. -/
def copy (id : NodeId) (node : Node) : Node :=
  { Node.stamp id node.template with internals := node.internals }

/-- The graph with a copy of a node in the next slot. -/
def withCopy (g : Graph) (node : Node) : Graph :=
  { g.withNode node.template with nodes := g.nodes.push (some (copy ⟨g.nodes.size⟩ node)) }

theorem setIfInBounds_push {α : Type} (slots : Array α) (old new : α) :
    (slots.push old).setIfInBounds slots.size new = slots.push new := by
  apply Array.ext_getElem?
  intro i
  rw [Array.getElem?_setIfInBounds, Array.getElem?_push, Array.getElem?_push]
  by_cases last : slots.size = i
  · simp [last]
  · simp [last, Ne.symm last]

/-- A saved node whose template is known gets the next slot, unless it has a setting without a
place. -/
theorem loadNode_known (saved : SavedNode) {t : Template} (idle : g.isIdle = true)
    (known : g.registry.get? saved.template = some t) :
    (g.loadNode saved).graph = g.withCopy (saved.build t) ∧
      (firstUnplaced? (Node.stamp ⟨g.nodes.size⟩ t) saved.settings = none →
        (g.loadNode saved).result = .ok (g.ref ⟨g.nodes.size⟩)) ∧
      ∀ index, firstUnplaced? (Node.stamp ⟨g.nodes.size⟩ t) saved.settings = some index →
        (g.loadNode saved).result = .error (.missingSetting ⟨g.nodes.size⟩ index) := by
  have added : g.addNode saved.template = accept (g.withNode t) (g.ref ⟨g.nodes.size⟩) := by
    unfold addNode whenIdle
    rw [if_pos idle, known]
    rfl
  have live : (g.withNode t).node? ⟨g.nodes.size⟩ = some (Node.stamp ⟨g.nodes.size⟩ t) := by
    rw [node?_withNode, if_pos rfl]
  unfold loadNode
  simp only [added, accept, ref, live]
  refine ⟨?_, fun placed => by rw [placed], fun index lost => by rw [lost]⟩
  simp only [setNode, withNode, Node.stamp, setIfInBounds_push]
  rfl

theorem loadNode_unknown {saved : SavedNode} (idle : g.isIdle = true)
    (unknown : g.registry.get? saved.template = none) :
    (g.loadNode saved).result = .error (.unknownTemplate saved.template) := by
  have refused : g.addNode saved.template = g.refuse (.unknownTemplate saved.template) := by
    unfold addNode
    rw [whenIdle_of_idle idle, unknown]
  unfold loadNode
  rw [refused]
  rfl

/-- Nodes are added in order, each with its position as its number, and nothing else is touched. -/
theorem withCopies_eq (nodes : List Node) (g : Graph) :
    (nodes.foldl withCopy g).nodes.toList =
        g.nodes.toList ++
          (nodes.zipIdx g.nodes.size).map (fun entry => some (copy ⟨entry.2⟩ entry.1)) ∧
      (nodes.foldl withCopy g).edges = g.edges ∧
      (nodes.foldl withCopy g).surroundings = g.surroundings := by
  induction nodes generalizing g with
  | nil => exact ⟨by simp, rfl, rfl⟩
  | cons first rest ih =>
    obtain ⟨slots, edges, around⟩ := ih (g.withCopy first)
    refine ⟨?_, edges, around⟩
    have size : (g.withCopy first).nodes.size = g.nodes.size + 1 := Array.size_push _
    have pushed : (g.withCopy first).nodes.toList =
        g.nodes.toList ++ [some (copy ⟨g.nodes.size⟩ first)] := Array.toList_push
    rw [List.foldl_cons, slots, size, pushed, List.append_assoc, List.zipIdx_cons]
    rfl

/-- Copies into an empty graph are numbered from zero. -/
theorem nodeList_withCopies (nodes : List Node) (id : GraphId) (registry : Registry)
    (config : GraphConfig) :
    (nodes.foldl withCopy (empty id registry config)).nodeList =
      nodes.zipIdx.map fun entry => copy ⟨entry.2⟩ entry.1 := by
  obtain ⟨slots, _, _⟩ := withCopies_eq nodes (empty id registry config)
  have start : (empty id registry config).nodes = #[] := rfl
  have full : ((fun slot => slot) ∘ fun entry : Node × Nat => some (copy ⟨entry.2⟩ entry.1)) =
      fun entry => some (copy ⟨entry.2⟩ entry.1) := rfl
  rw [nodeList, slots, start, List.nil_append, Array.size_empty, List.filterMap_map, full,
    List.filterMap_eq_map']

/-- Nodes that could be added stand in the next slots, each with the settings that fit. -/
theorem loadNodes_of_ok {nodes : List SavedNode} {refs : List NodeRef} (idle : g.isIdle = true)
    (answer : (g.loadNodes nodes).result = .ok refs) :
    ∃ built : List Node,
      List.Forall₂ (fun saved node => ∃ t, g.registry.get? saved.template = some t ∧
        node = saved.build t) nodes built ∧
      refs = (List.range' g.nodes.size nodes.length).map (fun slot => g.ref ⟨slot⟩) ∧
      (g.loadNodes nodes).graph = built.foldl withCopy g := by
  induction nodes generalizing g refs with
  | nil =>
    cases answer
    exact ⟨[], .nil, rfl, rfl⟩
  | cons saved rest ih =>
    cases found : g.registry.get? saved.template with
    | none =>
      rw [loadNodes, loadNode_unknown idle found] at answer
      cases answer
    | some t =>
      obtain ⟨graph, result, crash⟩ := loadNode_known saved idle found
      rw [loadNodes] at answer ⊢
      cases placed : firstUnplaced? (Node.stamp ⟨g.nodes.size⟩ t) saved.settings with
      | some index =>
        simp only [crash index placed] at answer
        cases answer
      | none =>
        simp only [result placed, graph] at answer ⊢
        cases others : ((g.withCopy (saved.build t)).loadNodes rest).result with
        | error e =>
          rw [others] at answer
          cases answer
        | ok later =>
          rw [others] at answer
          cases answer
          obtain ⟨built, matched, refs, graphs⟩ := ih (g := g.withCopy (saved.build t)) idle others
          have size : (g.withCopy (saved.build t)).nodes.size = g.nodes.size + 1 :=
            Array.size_push _
          refine ⟨saved.build t :: built, .cons ⟨t, found, rfl⟩ matched, ?_, graphs⟩
          rw [refs, size]
          rfl

/-- Loading nodes ends with the first that is of no registered template. -/
theorem error?_loadNodes {nodes : List SavedNode} (idle : g.isIdle = true)
    (paired : ∀ saved ∈ nodes, ∀ t, g.registry.get? saved.template = some t →
      t.defaults.length = t.internals.length) :
    (g.loadNodes nodes).error? = (nodes.flatMap (unregistered g.registry)).head? := by
  induction nodes generalizing g with
  | nil => rfl
  | cons saved rest ih =>
    obtain ⟨pairedFirst, pairedRest⟩ := List.forall_mem_cons.mp paired
    rw [List.flatMap_cons, unregistered, Registry.contains, loadNodes]
    cases found : g.registry.get? saved.template with
    | none =>
      simp only [loadNode_unknown idle found]
      rfl
    | some t =>
      obtain ⟨graph, result, _⟩ := loadNode_known saved idle found
      have placed : firstUnplaced? (Node.stamp ⟨g.nodes.size⟩ t) saved.settings = none :=
        firstUnplaced?_eq_none _ (pairedFirst t found)
      simp only [result placed, graph, Option.isSome_some, if_true, List.nil_append]
      refine Eq.trans ?_ (ih (g := g.withCopy (saved.build t)) idle pairedRest)
      simp only [Reply.error?]
      cases ((g.withCopy (saved.build t)).loadNodes rest).result <;> rfl

/-- A graph in the course of loading: it has a node for each of the form, in the place of its
position, and of the edges those before the next. -/
structure Loading (registry : Registry) (form : SavedGraph) (refs : List NodeRef)
    (before : List SavedEdge) (g : Graph) : Prop where
  whole : g.Integrity
  idle : g.isIdle = true
  refs : refs = (List.range form.nodes.length).map fun slot => g.ref ⟨slot⟩
  length : g.nodeList.length = form.nodes.length
  nodes : ∀ (position : Nat) saved, form.nodes[position]? = some saved →
    ∃ t, registry.get? saved.template = some t ∧
      g.nodeList[position]? = some (copy ⟨position⟩ (saved.build t))
  wires : g.wires.map Edge.saved = before

variable {refs : List NodeRef} {before : List SavedEdge}

theorem loading_nodes {id : GraphId} {config : GraphConfig}
    (answer : ((empty id registry config).loadNodes form.nodes).result = .ok refs) :
    Loading registry form refs [] ((empty id registry config).loadNodes form.nodes).graph := by
  have whole := (integrity_empty id registry config).loadNodes form.nodes
  obtain ⟨built, matched, numbers, graph⟩ := loadNodes_of_ok rfl answer
  obtain ⟨_, edges, around⟩ := withCopies_eq built (empty id registry config)
  have stands := nodeList_withCopies built id registry config
  rw [graph] at whole ⊢
  generalize built.foldl withCopy (empty id registry config) = loaded at *
  have phase : loaded.phase = .idle := (congrArg Graph.phase around :)
  have own : loaded.id = id := (congrArg Graph.id around :)
  refine ⟨whole, ?_, ?_, ?_, fun position saved atPosition => ?_, ?_⟩
  · rw [isIdle, phase]
    rfl
  · rw [numbers, List.range_eq_range']
    unfold ref
    rw [own]
    rfl
  · rw [stands, List.length_map, List.length_zipIdx, matched.length_eq]
  · obtain ⟨inside, read⟩ := List.getElem?_eq_some_iff.mp atPosition
    have there : position < built.length := matched.length_eq ▸ inside
    obtain ⟨t, found, made⟩ := matched.get inside there
    simp only [List.get_eq_getElem, read] at found made
    refine ⟨t, found, ?_⟩
    rw [stands, List.getElem?_map, List.getElem?_zipIdx, List.getElem?_eq_getElem there, made]
    simp only [Option.map_some, Nat.zero_add]
  · rw [wires, edges]
    rfl

namespace Loading

theorem node? (loading : Loading registry form refs before g) {position : Nat} {saved : SavedNode}
    (atPosition : form.nodes[position]? = some saved) :
    ∃ t, registry.get? saved.template = some t ∧
      g.node? ⟨position⟩ = some (copy ⟨position⟩ (saved.build t)) := by
  obtain ⟨t, found, read⟩ := loading.nodes position saved atPosition
  exact ⟨t, found, loading.whole.live_iff_mem.mpr ⟨List.mem_of_getElem? read, rfl⟩⟩

theorem find? (loading : Loading registry form refs before g) {position : Nat}
    (inside : position < form.nodes.length) :
    ∃ node, g.find? (g.ref ⟨position⟩) = some node ∧
      form.template? registry position = some node.template := by
  have atPosition := List.getElem?_eq_getElem inside
  obtain ⟨t, found, live⟩ := loading.node? atPosition
  refine ⟨_, (if_pos rfl).trans live, ?_⟩
  rw [SavedGraph.template?, atPosition]
  exact found

/-- A port is missing in the graph just if it is missing in the form. -/
theorem outside_eq (loading : Loading registry form refs before g) {position : Nat}
    (inside : position < form.nodes.length) (side : PortSide) (ports : Template → List Port)
    (index : Nat) :
    g.outside (g.ref ⟨position⟩) side ports index =
      form.outside registry position side ports index := by
  obtain ⟨node, found, template⟩ := loading.find? inside
  simp only [outside, SavedGraph.outside, found, template]
  rfl

/-- An input is taken in the graph just if an earlier edge of the form ends there. -/
theorem taken_eq (loading : Loading registry form refs before g) (edge : SavedEdge) :
    g.taken ⟨edge.target⟩ edge.input = SavedGraph.taken before edge := by
  have ends (wire : Edge) : decide (wire.target = ⟨edge.target⟩ ∧ wire.input = edge.input) =
      decide (wire.saved.target = edge.target ∧ wire.saved.input = edge.input) := by
    refine decide_eq_decide.mpr ?_
    rw [Edge.saved, ← NodeId.index_inj]
  rw [taken, SavedGraph.taken, ← loading.wires, List.any_map]
  simp only [ends]
  rfl

/-- What speaks against the next edge is what is wrong with it in the form. -/
theorem obstacles_eq (loading : Loading registry form refs before g) {edge : SavedEdge}
    (source : edge.source < form.nodes.length) (target : edge.target < form.nodes.length) :
    g.obstacles (g.ref ⟨edge.source⟩) edge.output (g.ref ⟨edge.target⟩) edge.input =
      form.outside registry edge.source .output (·.outputs) edge.output ++
        form.outside registry edge.target .input (·.inputs) edge.input ++
          SavedGraph.taken before edge := by
  obtain ⟨s, atSource, _⟩ := loading.find? source
  obtain ⟨t, atTarget, _⟩ := loading.find? target
  rw [obstacles, if_pos loading.idle, unresolved_eq_nil.mpr ⟨s, atSource⟩,
    unresolved_eq_nil.mpr ⟨t, atTarget⟩, loading.outside_eq source, loading.outside_eq target]
  exact congrArg (_ ++ ·) (loading.taken_eq edge)

/-- Each edge that is added leaves a graph with one more edge of the form. -/
theorem addEdge (loading : Loading registry form refs before g) {edge : SavedEdge} {id : EdgeId}
    (answer : (g.addEdge (g.ref ⟨edge.source⟩) edge.output (g.ref ⟨edge.target⟩)
      edge.input).result = .ok id) :
    Loading registry form refs (before ++ [edge])
      (g.addEdge (g.ref ⟨edge.source⟩) edge.output (g.ref ⟨edge.target⟩) edge.input).graph := by
  have whole := loading.whole.addEdge (g.ref ⟨edge.source⟩) edge.output (g.ref ⟨edge.target⟩)
    edge.input
  rcases g.addEdge_cases (g.ref ⟨edge.source⟩) edge.output (g.ref ⟨edge.target⟩) edge.input with
    ⟨⟨e, failed⟩, _⟩ | ⟨_, _, _, added⟩
  · cases failed.symm.trans answer
  rw [added] at whole ⊢
  refine ⟨whole, loading.idle, loading.refs, loading.length, loading.nodes, ?_⟩
  rw [wires_withEdge, List.map_append, loading.wires]
  rfl

theorem ref_of_lt (loading : Loading registry form refs before g) {position : Nat}
    (inside : position < form.nodes.length) : refs[position]? = some (g.ref ⟨position⟩) := by
  rw [loading.refs, List.getElem?_map, List.getElem?_range inside]
  rfl

/-- Edges from nodes to nodes are added up to the first with which something is wrong. -/
theorem loadEdges (loading : Loading registry form refs before g) {edges : List SavedEdge}
    (inside : ∀ edge ∈ edges, edge.source < form.nodes.length ∧ edge.target < form.nodes.length) :
    (g.loadEdges refs edges).error? = (SavedGraph.misfits registry form before edges).head? ∧
      ((g.loadEdges refs edges).result = .ok () →
        Loading registry form refs (before ++ edges) (g.loadEdges refs edges).graph) := by
  induction edges generalizing g before with
  | nil =>
    refine ⟨rfl, fun _ => ?_⟩
    rw [List.append_nil]
    exact loading
  | cons edge rest ih =>
    obtain ⟨⟨source, target⟩, others⟩ := List.forall_mem_cons.mp inside
    have first := loading.whole.error?_addEdge (g.ref ⟨edge.source⟩) edge.output
      (g.ref ⟨edge.target⟩) edge.input
    rw [loading.obstacles_eq source target] at first
    rw [Graph.loadEdges, SavedGraph.misfits, List.head?_append, ← first,
      List.append_cons before edge rest]
    simp only [loading.ref_of_lt source, loading.ref_of_lt target]
    cases answer : (g.addEdge (g.ref ⟨edge.source⟩) edge.output (g.ref ⟨edge.target⟩)
        edge.input).result with
    | error e =>
      simp only [Reply.error?, answer]
      exact ⟨rfl, fun done => by cases done⟩
    | ok id =>
      -- the edge now is one of those before, so each later one is judged beside it too
      obtain ⟨errors, completes⟩ := ih (loading.addEdge answer) others
      rw [error?_of_ok answer, Option.none_or]
      exact ⟨errors, completes⟩

end Loading

variable {id : GraphId} {config : GraphConfig}

theorem loading_load (answer : (load id registry config form).result = .ok ()) :
    ∃ refs, Loading registry form refs form.edges (load id registry config form).graph := by
  unfold load at answer ⊢
  cases missing : form.missing? with
  | some ends =>
    simp only [missing] at answer
    cases answer
  | none =>
    simp only [missing] at answer ⊢
    cases nodes : ((empty id registry config).loadNodes form.nodes).result with
    | error e =>
      simp only [nodes] at answer
      cases answer
    | ok refs =>
      simp only [nodes] at answer ⊢
      exact ⟨refs, ((loading_nodes nodes).loadEdges
        (SavedGraph.missing?_eq_none.mp missing)).2 answer⟩

/-- Loading ends with the first violation. -/
theorem error?_load (id : GraphId) (config : GraphConfig) (form : SavedGraph)
    (paired : ∀ saved ∈ form.nodes, ∀ t, registry.get? saved.template = some t →
      t.defaults.length = t.internals.length) :
    (load id registry config form).error? = (form.violations registry).head? := by
  have stocked := error?_loadNodes (g := empty id registry config) rfl paired
  rw [SavedGraph.violations, List.head?_append, List.head?_append, ← SavedGraph.missing?_eq]
  unfold load
  cases missing : form.missing? with
  | some ends => rfl
  | none =>
    refine Eq.trans ?_ (congrArg (Option.or · _) stocked)
    cases nodes : ((empty id registry config).loadNodes form.nodes).result with
    | error e => simp only [Reply.error?, nodes, Option.some_or]
    | ok refs =>
      simp only [error?_of_ok nodes, Option.none_or, nodes]
      exact ((loading_nodes nodes).loadEdges (SavedGraph.missing?_eq_none.mp missing)).1

end Graph

end Flowgraph
