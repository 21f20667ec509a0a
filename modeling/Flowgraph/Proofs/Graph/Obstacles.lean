import Flowgraph.Proofs.Graph.Lifetime
import Flowgraph.Proofs.Graph.Order

namespace Flowgraph.Graph

variable {g : Graph} {source target : NodeRef} {output input : Nat}

/-- A reference that is to a node of another graph, or to one that is not there. -/
def unresolved (g : Graph) (ref : NodeRef) : List GraphError :=
  if ref.graph = g.id then
    if (g.node? ref.node).isSome then [] else [.unknownNode ref.node]
  else [.foreignNode g.id ref.graph]

/-- An index that none of the ports of a node has. Of a node that is not there nothing is said. -/
def outside (g : Graph) (ref : NodeRef) (side : PortSide) (ports : Template → List Port)
    (index : Nat) : List GraphError :=
  match g.find? ref with
  | none => []
  | some node =>
    let size := (ports node.template).length
    if index < size then [] else [.invalidPort ref.node side index size]

/-- An input at which some edge of the graph ends. -/
def taken (g : Graph) (target : NodeId) (input : Nat) : List GraphError :=
  if g.wires.any fun edge => edge.target = target ∧ edge.input = input then
    [.inputTaken target input]
  else []

/-- Everything that speaks against an edge, in the order in which it counts. -/
def obstacles (g : Graph) (source : NodeRef) (output : Nat) (target : NodeRef) (input : Nat) :
    List GraphError :=
  (if g.isIdle then [] else [.propagating]) ++ g.unresolved source ++ g.unresolved target ++
    g.outside source .output (·.outputs) output ++ g.outside target .input (·.inputs) input ++
    g.taken target.node input

theorem unresolved_eq_nil {ref : NodeRef} :
    g.unresolved ref = [] ↔ ∃ node, g.find? ref = some node := by
  unfold unresolved find?
  split
  · cases g.node? ref.node <;> simp
  · simp

theorem unresolved_of_ok {ref : NodeRef} {node : Node} (found : g.resolve ref = .ok node) :
    g.unresolved ref = [] ∧ g.find? ref = some node := by
  obtain ⟨own, live⟩ := resolve_eq_ok.mp found
  constructor
  · rw [unresolved, if_pos own, live]
    rfl
  · rw [find?, if_pos own, live]

theorem unresolved_of_error {ref : NodeRef} {e : GraphError} (failed : g.resolve ref = .error e) :
    g.unresolved ref = [e] := by
  unfold resolve at failed
  unfold unresolved
  split at failed
  · rename_i own
    rw [if_pos own]
    split at failed <;> cases failed
    rename_i dead
    rw [dead]
    rfl
  · rename_i foreign
    cases failed
    rw [if_neg foreign]

theorem outside_eq {ref : NodeRef} {node : Node} (found : g.find? ref = some node)
    (side : PortSide) (ports : Template → List Port) (index : Nat) :
    g.outside ref side ports index =
      match port ref.node side (ports node.template) index with
      | .ok _ => []
      | .error e => [e] := by
  simp only [outside, found, port]
  by_cases inside : index < (ports node.template).length
  · rw [if_pos inside, List.getElem?_eq_getElem inside]
  · rw [if_neg inside, List.getElem?_eq_none_iff.mpr (Nat.not_lt.mp inside)]

theorem outside_eq_nil {ref : NodeRef} {node : Node} {side : PortSide}
    {ports : Template → List Port} {index : Nat} (found : g.find? ref = some node) :
    g.outside ref side ports index = [] ↔ index < (ports node.template).length := by
  simp only [outside, found]
  split <;> simp [*]

/-- The list at the target has all that end at an input of it. -/
theorem Integrity.taken_eq (whole : g.Integrity) (target : NodeId) (input : Nat) :
    g.taken target input =
      if (g.incoming target).any (·.input == input) then [.inputTaken target input] else [] := by
  have same : (g.wires.any fun edge => edge.target = target ∧ edge.input = input) =
      (g.incoming target).any (·.input == input) := by
    rw [whole.incoming_eq, List.any_filter]
    exact congrArg g.wires.any (funext fun edge => Bool.decide_and _ _)
  rw [taken, same]

theorem taken_eq_nil {target : NodeId} : g.taken target input = [] ↔
    ∀ id edge, g.edge? id = some edge → edge.target = target → edge.input ≠ input := by
  unfold taken
  split
  · rename_i found
    obtain ⟨edge, member, ends⟩ := List.any_eq_true.mp found
    obtain ⟨id, live⟩ := mem_wires.mp member
    obtain ⟨sameTarget, sameInput⟩ := of_decide_eq_true ends
    simp only [reduceCtorEq, false_iff]
    exact fun free => free id edge live sameTarget sameInput
  · rename_i absent
    simp only [true_iff]
    intro id edge live sameTarget sameInput
    exact absent (List.any_eq_true.mpr
      ⟨edge, mem_wires.mpr ⟨id, live⟩, decide_eq_true ⟨sameTarget, sameInput⟩⟩)

/-- The error of a check that may fail. -/
theorem Integrity.checkEdge_obstacles (whole : g.Integrity) (idle : g.isIdle = true)
    (source : NodeRef) (output : Nat) (target : NodeRef) (input : Nat) :
    (match g.checkEdge source output target input with
      | .ok _ => none
      | .error e => some e) = (g.obstacles source output target input).head? := by
  unfold checkEdge obstacles
  rw [if_pos idle, List.nil_append, whole.taken_eq]
  cases atSource : g.resolve source with
  | error e => simp [bind, Except.bind, unresolved_of_error atSource]
  | ok s =>
    obtain ⟨knownSource, findSource⟩ := unresolved_of_ok atSource
    cases atTarget : g.resolve target with
    | error e => simp [bind, Except.bind, knownSource, unresolved_of_error atTarget]
    | ok t =>
      obtain ⟨knownTarget, findTarget⟩ := unresolved_of_ok atTarget
      rw [knownSource, knownTarget, outside_eq findSource, outside_eq findTarget]
      simp only [bind, Except.bind, List.nil_append]
      cases port source.node .output s.template.outputs output with
      | error e => rfl
      | ok first =>
        cases port target.node .input t.template.inputs input with
        | error e => rfl
        | ok second =>
          cases (g.incoming target.node).any (·.input == input) <;> rfl

/-- An edge is refused for the first of its obstacles. -/
theorem Integrity.error?_addEdge (whole : g.Integrity) (source : NodeRef) (output : Nat)
    (target : NodeRef) (input : Nat) :
    (g.addEdge source output target input).error? =
      (g.obstacles source output target input).head? := by
  cases idle : g.isIdle with
  | false =>
    unfold Graph.addEdge obstacles
    rw [whenIdle_of_busy idle, idle]
    rfl
  | true =>
    rw [← whole.checkEdge_obstacles idle]
    unfold Graph.addEdge
    rw [whenIdle_of_idle idle]
    cases g.checkEdge source output target input <;> rfl

theorem error?_eq_none {α : Type} {reply : Reply α} :
    reply.error? = none ↔ ∃ a, reply.result = .ok a := by
  unfold Reply.error?
  cases reply.result with
  | ok a => simp
  | error e => simp

/-- Nothing speaks against an edge just if the graph is idle, its ends and ports are there and its
input is free. -/
theorem obstacles_eq_nil : g.obstacles source output target input = [] ↔
    g.isIdle = true ∧
      (∃ s, g.find? source = some s ∧ output < s.template.outputs.length) ∧
      (∃ t, g.find? target = some t ∧ input < t.template.inputs.length) ∧
      ∀ id edge, g.edge? id = some edge → edge.target = target.node → edge.input ≠ input := by
  have idle : (if g.isIdle then [] else [GraphError.propagating]) = [] ↔ g.isIdle = true := by
    cases g.isIdle <;> simp
  simp only [obstacles, List.append_eq_nil_iff, idle, unresolved_eq_nil, taken_eq_nil]
  constructor
  · rintro ⟨⟨⟨⟨⟨quiet, s, atSource⟩, t, atTarget⟩, outputInside⟩, inputInside⟩, free⟩
    exact ⟨quiet, ⟨s, atSource, (outside_eq_nil atSource).mp outputInside⟩,
      ⟨t, atTarget, (outside_eq_nil atTarget).mp inputInside⟩, free⟩
  · rintro ⟨quiet, ⟨s, atSource, outputInside⟩, ⟨t, atTarget, inputInside⟩, free⟩
    exact ⟨⟨⟨⟨⟨quiet, s, atSource⟩, t, atTarget⟩, (outside_eq_nil atSource).mpr outputInside⟩,
      (outside_eq_nil atTarget).mpr inputInside⟩, free⟩

/-- One edge more and nothing else: it has the next number, and it comes last in the list of all
edges and in the lists of its ends. -/
structure Joins (g h : Graph) (id : EdgeId) (edge : Edge) : Prop where
  fresh : id = ⟨g.edges.size⟩
  edges : h.edgeList = g.edgeList ++ [(id, edge)]
  lists : ∀ node, h.adjacentTo node =
    { incoming := (g.adjacentTo node).incoming ++ if edge.target = node then [id] else []
      outgoing := (g.adjacentTo node).outgoing ++ if edge.source = node then [id] else [] }
  incoming : ∀ node,
    h.incoming node = g.incoming node ++ if edge.target = node then [edge] else []
  outgoing : ∀ node,
    h.outgoing node = g.outgoing node ++ if edge.source = node then [edge] else []
  liveEdges : h.liveEdges = g.liveEdges + 1
  nodes : h.nodes = g.nodes
  liveNodes : h.liveNodes = g.liveNodes
  surroundings : h.surroundings = g.surroundings

theorem edgeList_withEdge (g : Graph) (edge : Edge) :
    (g.withEdge edge).edgeList = g.edgeList ++ [(⟨g.edges.size⟩, edge)] := by
  simp only [edgeList, withEdge, Array.toList_push, List.zipIdx_append, List.filterMap_append,
    Array.length_toList, Nat.zero_add]
  rfl

/-- A new edge changes the lists of its ends and nothing else that can be read off the graph. -/
theorem Integrity.joins_withEdge (whole : g.Integrity) {edge : Edge} (source : g.Live edge.source)
    (target : g.Live edge.target) (joined : (g.withEdge edge).Integrity) :
    g.Joins (g.withEdge edge) ⟨g.edges.size⟩ edge := by
  have last (holds : Edge → Bool) : [edge].filter holds = if holds edge then [edge] else [] := by
    rw [List.filter_cons, List.filter_nil]
  refine ⟨rfl, g.edgeList_withEdge edge, fun node => ?_, fun node => ?_, fun node => ?_, rfl, rfl,
    rfl, rfl⟩
  · rw [whole.adjacentTo_withEdge source target]
    congr 1
    · split
      · rfl
      · exact (List.append_nil _).symm
    · split
      · rfl
      · exact (List.append_nil _).symm
  · rw [joined.incoming_eq, whole.incoming_eq, wires_withEdge, List.filter_append, last]
    simp only [decide_eq_true_eq]
  · rw [joined.outgoing_eq, whole.outgoing_eq, wires_withEdge, List.filter_append, last]
    simp only [decide_eq_true_eq]

theorem Integrity.joins_addEdge (whole : g.Integrity) {id : EdgeId}
    (answer : (g.addEdge source output target input).result = .ok id) :
    g.Joins (g.addEdge source output target input).graph id
      ⟨source.node, output, target.node, input⟩ := by
  have joined := whole.addEdge source output target input
  have free : g.obstacles source output target input = [] := by
    rw [← List.head?_eq_none_iff, ← whole.error?_addEdge, error?_eq_none]
    exact ⟨id, answer⟩
  obtain ⟨_, ⟨s, atSource, _⟩, ⟨t, atTarget, _⟩, _⟩ := obstacles_eq_nil.mp free
  rcases g.addEdge_cases source output target input with ⟨⟨e, failed⟩, _⟩ | ⟨_, _, made, added⟩
  · cases failed.symm.trans answer
  cases made.symm.trans answer
  rw [added] at joined ⊢
  exact whole.joins_withEdge ⟨s, (resolve_eq_ok.mp (resolve_of_find? atSource)).2⟩
    ⟨t, (resolve_eq_ok.mp (resolve_of_find? atTarget)).2⟩ joined

/-- An edge is made exactly if the graph is idle, both references are to nodes that are there, both
have the port, and no edge ends at the input. Otherwise the first obstacle is the error. What is
made is the edge and nothing else. -/
theorem addEdge_exact (reach : g.Reachable) (source : NodeRef) (output : Nat) (target : NodeRef)
    (input : Nat) :
    ((∃ id, (g.addEdge source output target input).result = .ok id) ↔
      g.isIdle = true ∧
        (∃ s, g.find? source = some s ∧ output < s.template.outputs.length) ∧
        (∃ t, g.find? target = some t ∧ input < t.template.inputs.length) ∧
        ∀ id edge, g.edge? id = some edge → edge.target = target.node → edge.input ≠ input) ∧
      (g.addEdge source output target input).error? =
        (g.obstacles source output target input).head? ∧
      ∀ id, (g.addEdge source output target input).result = .ok id →
        g.Joins (g.addEdge source output target input).graph id
          ⟨source.node, output, target.node, input⟩ := by
  have whole := reach.integrity
  have first := whole.error?_addEdge source output target input
  refine ⟨?_, first, fun id answer => whole.joins_addEdge answer⟩
  rw [← obstacles_eq_nil, ← List.head?_eq_none_iff, ← first, error?_eq_none]

/-- A loop at a node is listed on both sides of it. Of a foreign source and a removed target the
source is told. -/
theorem addEdge_exact_extended :
    extended.Reachable ∧
      (extended.addEdge ⟨⟨0⟩, ⟨4⟩⟩ 0 ⟨⟨0⟩, ⟨4⟩⟩ 0).result = .ok ⟨4⟩ ∧
      (extended.addEdge ⟨⟨0⟩, ⟨4⟩⟩ 0 ⟨⟨0⟩, ⟨4⟩⟩ 0).graph.adjacentTo ⟨4⟩ = ⟨[⟨4⟩], [⟨4⟩]⟩ ∧
      (extended.addEdge ⟨⟨7⟩, ⟨4⟩⟩ 0 ⟨⟨0⟩, ⟨0⟩⟩ 9).error? = some (.foreignNode ⟨0⟩ ⟨7⟩) := by
  have reach : extended.Reachable := reachable_detour.call (.addNode "Relay")
  have made : (extended.addEdge ⟨⟨0⟩, ⟨4⟩⟩ 0 ⟨⟨0⟩, ⟨4⟩⟩ 0).result = .ok ⟨4⟩ := rfl
  obtain ⟨_, _, joins⟩ := addEdge_exact reach ⟨⟨0⟩, ⟨4⟩⟩ 0 ⟨⟨0⟩, ⟨4⟩⟩ 0
  obtain ⟨_, first, _⟩ := addEdge_exact reach ⟨⟨7⟩, ⟨4⟩⟩ 0 ⟨⟨0⟩, ⟨0⟩⟩ 9
  exact ⟨reach, made, (joins _ made).lists ⟨4⟩, first⟩

end Flowgraph.Graph
