import Flowgraph.Proofs.Builtin.Typing
import Flowgraph.Proofs.Graph.Formed

namespace Flowgraph

open Propagation (Run)

theorem validates_zeros (ports : List Port) :
    validates (Port.types ports) (Port.zeros ports) = true := by
  simp [validates, Port.types, Port.zeros, List.zip_map', PortType.accepts_zero]

namespace Graph

variable {g h : Graph} {scene : Scene} {id : NodeId} {node : Node}

/-- What an edge carries: the result that its source has stored for its output. -/
def carried? (g : Graph) (edge : Edge) : Option Value :=
  (g.node? edge.source).bind (·.output? edge.output)

/-- Writes what an edge carries into the place of its input. Where there is no such place, or
nothing is carried, nothing is written. -/
def write (g : Graph) (values : List Value) (edge : Edge) : List Value :=
  match g.carried? edge with
  | some v => values.set edge.input v
  | none => values

theorem getElem?_write (values : List Value) (edge : Edge) (input : Nat) :
    (g.write values edge)[input]? = values[input]?.map fun before =>
      ([edge].filter (·.input == input)).findSome? g.carried? |>.getD before := by
  have alone : ([edge].filter (·.input == input)).findSome? g.carried? =
      if edge.input = input then g.carried? edge else none := by
    by_cases here : edge.input = input
    · rw [List.filter_cons_of_pos (by simpa using here), if_pos here]
      cases carried : g.carried? edge <;> simp [carried]
    · rw [List.filter_cons_of_neg (by simpa using here), if_neg here]
      rfl
  rw [alone, write]
  by_cases here : edge.input = input
  · subst here
    cases g.carried? edge with
    | none => simp
    | some v =>
      rw [List.getElem?_set, if_pos rfl]
      by_cases inside : edge.input < values.length
      · simp [inside]
      · simp [inside]
  · cases g.carried? edge with
    | none => simp [here]
    | some v => simp [here]

/-- Of the edges that are written to one place, the last that carries anything is read there. -/
theorem getElem?_writes (edges : List Edge) (values : List Value) (input : Nat) :
    (edges.foldl g.write values)[input]? = values[input]?.map fun before =>
      ((edges.reverse.filter (·.input == input)).findSome? g.carried?).getD before := by
  induction edges generalizing values with
  | nil => simp
  | cons edge rest ih =>
    rw [List.foldl_cons, ih, getElem?_write, Option.map_map, List.reverse_cons, List.filter_append,
      List.findSome?_append]
    congr 1
    funext before
    cases (rest.reverse.filter (·.input == input)).findSome? g.carried? <;> rfl

/-- The inputs of a node are what its list of wires writes over zeros. -/
theorem resolveInputs_eq_writes (live : g.node? id = some node) :
    g.resolveInputs id = (g.incoming id).foldl g.write (Port.zeros node.template.inputs) := by
  apply List.ext_getElem?
  intro input
  rw [getElem?_resolveInputs live, getElem?_writes, Port.zeros, List.getElem?_map, Option.map_map]
  rfl

theorem write_comm {first second : Edge} (apart : first.input ≠ second.input)
    (values : List Value) :
    g.write (g.write values first) second = g.write (g.write values second) first := by
  unfold write
  cases g.carried? first with
  | none => rfl
  | some v =>
    cases g.carried? second with
    | none => rfl
    | some w => exact List.set_comm v w apart

/-- Where no two edges end at one input, it makes no difference in which order they are written. -/
theorem writes_perm {edges others : List Edge} (same : edges.Perm others)
    (apart : ∀ first ∈ edges, ∀ second ∈ edges, first.input = second.input → first = second)
    (values : List Value) : edges.foldl g.write values = others.foldl g.write values := by
  refine same.foldl_eq' (fun first isFirst second isSecond values => ?_) values
  by_cases ends : first.input = second.input
  · rw [apart first isFirst second isSecond ends]
  · exact write_comm ends values

theorem Integrity.incoming_apart (whole : g.Integrity) {first second : Edge}
    (isFirst : first ∈ g.incoming id) (isSecond : second ∈ g.incoming id)
    (ends : first.input = second.input) : first = second := by
  obtain ⟨one, atOne, target⟩ := whole.mem_incoming.mp isFirst
  obtain ⟨other, atOther, again⟩ := whole.mem_incoming.mp isSecond
  have same := whole.single one other first second atOne atOther (target.trans again.symm) ends
  subst same
  exact Option.some.inj (atOne.symm.trans atOther)

/-- The graph with other lists of edges at a node. -/
def relisted (g : Graph) (id : NodeId) (lists : Adjacency) : Graph :=
  { g with adjacency := g.adjacency.setIfInBounds id.index lists }

theorem adjacentTo_relisted (inside : id.index < g.adjacency.size) (lists : Adjacency) :
    (g.relisted id lists).adjacentTo id = lists := by
  simp [relisted, adjacentTo, inside]

/-- It makes no difference in which order the wires of a node are listed. -/
theorem Integrity.resolveInputs_relisted (whole : g.Integrity) (live : g.node? id = some node)
    {lists : Adjacency} (same : lists.incoming.Perm (g.adjacentTo id).incoming) :
    (g.relisted id lists).resolveInputs id = g.resolveInputs id := by
  have inside : id.index < g.adjacency.size := whole.adjacency_size ▸ index_lt_of_node? live
  have wires : (g.incoming id).Perm ((g.relisted id lists).incoming id) := by
    rw [incoming, incoming, adjacentTo_relisted inside]
    exact (same.filterMap g.edge?).symm
  have there : (g.relisted id lists).node? id = some node := live
  rw [resolveInputs_eq_writes live, resolveInputs_eq_writes there,
    writes_perm wires fun first isFirst second isSecond => whole.incoming_apart isFirst isSecond]
  rfl

/-- A stored result for each output of each node. -/
def Filled (g : Graph) : Prop :=
  ∀ id node, g.node? id = some node → node.outputs.length = node.template.outputs.length

/-- Over a live wire a node receives what is stored at its source, which is there and has stored
something. -/
theorem Integrity.resolveInputs_of_edge (whole : g.Integrity) (filled : g.Filled)
    {edgeId : EdgeId} {edge : Edge} (live : g.edge? edgeId = some edge) :
    ∃ source target v, g.node? edge.source = some source ∧ g.node? edge.target = some target ∧
      edge.input < target.template.inputs.length ∧ source.output? edge.output = some v ∧
      (g.resolveInputs edge.target)[edge.input]? = some v := by
  obtain ⟨source, target, atSource, atTarget, output, input⟩ := whole.ends edgeId edge live
  rw [← filled edge.source source atSource] at output
  refine ⟨source, target, source.outputs[edge.output], atSource, atTarget, input,
    List.getElem?_eq_getElem output, ?_⟩
  rw [getElem?_resolveInputs atTarget, whole.wired?_of_edge live, storedAt, atSource]
  simp [input, output]

theorem Integrity.resolveInputs_of_unwired (whole : g.Integrity) (live : g.node? id = some node)
    {input : Nat} {port : Port} (atPort : node.template.inputs[input]? = some port)
    (unwired : ∀ edgeId edge, g.edge? edgeId = some edge → edge.target = id →
      edge.input ≠ input) : (g.resolveInputs id)[input]? = some port.type.zero := by
  rw [getElem?_resolveInputs live, atPort, whole.wired?_eq_none unwired]
  rfl

/-- With no wire at all a node receives zeros, which pass. -/
theorem Integrity.validates_of_unwired (whole : g.Integrity) (live : g.node? id = some node)
    (unwired : ∀ edgeId edge, g.edge? edgeId = some edge → edge.target ≠ id) :
    validates (Port.types node.template.inputs) (g.resolveInputs id) = true := by
  have bare : g.incoming id = [] := by
    rw [List.eq_nil_iff_forall_not_mem]
    intro edge member
    obtain ⟨edgeId, atId, ends⟩ := whole.mem_incoming.mp member
    exact unwired edgeId edge atId ends
  rw [resolveInputs_eq_writes live, bare]
  exact validates_zeros _

/-- The graphs that a tick passes through, one small change after the other. -/
inductive Moment (g : Graph) (scene : Scene) : Graph → Prop
  | before : Moment g scene g
  | stage {p : Propagation} : g.Stage scene p → Moment g scene p.graph
  /-- The node at the head of the queue has run; it is still due, or due no longer. -/
  | ran {p : Propagation} {e : Execution} {node : Node} {rest : List NodeId} (due : Bool) :
      g.Stage scene p → p.executions < g.cap → Run scene.keys scene.world p e node rest →
      e.outcome ≠ .escaped →
      Moment g scene (p.graph.setNode e.node
        { (node.run e.inputs ⟨p.entity, scene.keys, scene.world⟩).node with active := due })
  /-- After its run some of the ends of its activating wires have been made due. -/
  | awakening {p : Propagation} {e : Execution} {node : Node} {rest targets : List NodeId}
      {activations : List Bool} {rested : Graph} :
      g.Stage scene p → p.executions < g.cap → Run scene.keys scene.world p e node rest →
      e.outcome = .ran activations →
      rested = p.graph.setNode e.node
        { (node.run e.inputs ⟨p.entity, scene.keys, scene.world⟩).node with active := false } →
      targets <+: rested.activated e.node activations →
      Moment g scene (rested.awaken rest targets).1
  /-- At the cap some of what was still in the queue is due no longer. -/
  | draining {p : Propagation} {ids : List NodeId} : g.Stage scene p → p.executions = g.cap →
      ids <+: p.pending →
      Moment g scene (ids.foldl (fun h id => h.setActive id false) p.graph)
  | after : Moment g scene (g.tick scene).graph

/-- A node that has run, whether it is due or not, is one of the same program. -/
theorem program_ran {p : Propagation} (live : p.graph.node? id = some node) (inputs : List Value)
    (due : Bool) : (p.graph.setNode id { (node.run inputs scene).node with active := due }).program =
      p.graph.program :=
  strip_setNode live (node.still_run inputs scene).1

theorem Moment.program (moment : g.Moment scene h) (whole : g.Integrity) :
    h.program = g.program := by
  cases moment with
  | before => rfl
  | stage stage => exact (stage.running whole).program
  | ran due stage _ run => exact (program_ran run.live _ due).trans (stage.running whole).program
  | awakening stage _ run _ rested =>
    rw [rested, program_awaken]
    exact (program_ran run.live _ false).trans (stage.running whole).program
  | draining stage => exact (program_drain _ _).trans (stage.running whole).program
  | after => exact g.program_tick scene

variable {motive : Node → Prop}

theorem forall_nodes_ran {p : Propagation} (lasting : Node.Lasting motive)
    (holds : ∀ id node, p.graph.node? id = some node → motive node)
    (live : p.graph.node? id = some node) (inputs : List Value) (due : Bool) :
    ∀ other left, (p.graph.setNode id { (node.run inputs scene).node with active := due }).node?
      other = some left → motive left := by
  intro other left found
  rw [node?_setNode live] at found
  split at found
  · cases found
    exact lasting.active _ due (lasting.run _ _ _ (holds id node live))
  · exact holds other left found

/-- What all nodes keep in their runs holds of them at each moment of a tick. -/
theorem Moment.forall_nodes (moment : g.Moment scene h) (whole : g.Integrity)
    (lasting : Node.Lasting motive) (holds : ∀ id node, g.node? id = some node → motive node) :
    ∀ id node, h.node? id = some node → motive node := by
  cases moment with
  | before => exact holds
  | stage stage => exact stage.forall_nodes whole lasting holds
  | ran due stage _ run =>
    exact forall_nodes_ran lasting (stage.forall_nodes whole lasting holds) run.live _ due
  | @awakening p e before rest targets _ rested stage _ run _ equal =>
    obtain ⟨woken, _, _, _, nodes⟩ := rested.awaken_spec rest targets
    intro id node live
    rw [nodes] at live
    obtain ⟨left, atId, rfl⟩ := Option.map_eq_some_iff.mp live
    rw [equal] at atId
    have kept := forall_nodes_ran lasting (stage.forall_nodes whole lasting holds) run.live _ false
      id left atId
    split
    · exact lasting.active _ true kept
    · exact kept
  | draining stage =>
    intro id node live
    rw [node?_drain] at live
    obtain ⟨left, atId, rfl⟩ := Option.map_eq_some_iff.mp live
    have kept := stage.forall_nodes whole lasting holds id left atId
    split
    · exact lasting.active _ false kept
    · exact kept
  | after => exact forall_nodes_tick whole lasting holds

theorem Moment.integrity (moment : g.Moment scene h) (whole : g.Integrity) : h.Integrity :=
  whole.of_program (moment.program whole)

theorem Moment.filled (moment : g.Moment scene h) (reach : g.Reachable) : h.Filled :=
  moment.forall_nodes reach.integrity Node.lasting_results fun _ _ live => reach.results live

/-- At each moment of a tick the inputs of a node are one for each of its input ports: what is
stored at the other end where a live wire ends, and zero where none does. The order in which the
wires are listed makes no difference, nor that in which their values are written, and each wire in
the list has a place, a source and a stored result. A node without wires is never turned away. -/
theorem inputs_resolved (reach : g.Reachable) (moment : g.Moment scene h)
    (live : h.node? id = some node) :
    (h.resolveInputs id).length = node.template.inputs.length ∧
    (∀ edgeId edge, h.edge? edgeId = some edge → edge.target = id → ∃ source v,
      h.node? edge.source = some source ∧ source.output? edge.output = some v ∧
        (h.resolveInputs id)[edge.input]? = some v) ∧
    (∀ (input : Nat) port, node.template.inputs[input]? = some port →
      (∀ edgeId edge, h.edge? edgeId = some edge → edge.target = id → edge.input ≠ input) →
        (h.resolveInputs id)[input]? = some port.type.zero) ∧
    (∀ lists : Adjacency, lists.incoming.Perm (h.adjacentTo id).incoming →
      (h.relisted id lists).resolveInputs id = h.resolveInputs id) ∧
    (∀ edges : List Edge, edges.Perm (h.incoming id) →
      edges.foldl h.write (Port.zeros node.template.inputs) = h.resolveInputs id) ∧
    (∀ edgeId ∈ (h.adjacentTo id).incoming, ∃ edge source v, h.edge? edgeId = some edge ∧
      edge.target = id ∧ edge.input < node.template.inputs.length ∧
        h.node? edge.source = some source ∧ source.output? edge.output = some v) ∧
    ((∀ edgeId edge, h.edge? edgeId = some edge → edge.target ≠ id) →
      validates (Port.types node.template.inputs) (h.resolveInputs id) = true) := by
  have whole := moment.integrity reach.integrity
  have filled := moment.filled reach
  refine ⟨?_, fun edgeId edge atId ends => ?_, fun input port => whole.resolveInputs_of_unwired live,
    fun lists => whole.resolveInputs_relisted live, fun edges same => ?_,
    fun edgeId member => ?_, whole.validates_of_unwired live⟩
  · simp [resolveInputs, live]
  · subst ends
    obtain ⟨source, _, v, atSource, _, _, stored, received⟩ :=
      whole.resolveInputs_of_edge filled atId
    exact ⟨source, v, atSource, stored, received⟩
  · rw [resolveInputs_eq_writes live, writes_perm same.symm]
    exact fun first isFirst second isSecond => whole.incoming_apart isFirst isSecond
  · obtain ⟨edge, atId, rfl⟩ := ((whole.lists id).1.mem_iff edgeId).mp member
    obtain ⟨source, target, v, atSource, atTarget, inside, stored, _⟩ :=
      whole.resolveInputs_of_edge filled atId
    cases live.symm.trans atTarget
    exact ⟨edge, source, v, atId, rfl, inside, atSource, stored⟩

/-- The first turn of the detour: the seed has run. -/
def seeded : Propagation :=
  ({ Propagation.start detour quiet.entity with pending := [] }.execute quiet.keys quiet.world
    ⟨1⟩).1

/-- When only the seed of the detour has run, the join receives what the seed has stored and, over
its second wire, the zero that the relay still holds, however the two wires are listed. The seed
receives nothing, and passes. -/
theorem inputs_resolved_detour :
    detour.Reachable ∧ detour.Moment quiet seeded.graph ∧
      (seeded.graph.adjacentTo ⟨3⟩).incoming = [⟨1⟩, ⟨3⟩] ∧
      (seeded.graph.resolveInputs ⟨3⟩)[0]? = some (.bool true) ∧
      (seeded.graph.resolveInputs ⟨3⟩)[1]? = some .null ∧
      (seeded.graph.relisted ⟨3⟩ ⟨[⟨3⟩, ⟨1⟩], []⟩).resolveInputs ⟨3⟩ =
        seeded.graph.resolveInputs ⟨3⟩ ∧
      (∀ edgeId edge, seeded.graph.edge? edgeId = some edge → edge.target ≠ ⟨1⟩) ∧
      validates [] (seeded.graph.resolveInputs ⟨1⟩) = true := by
  have stage : detour.Stage quiet seeded := .next .start (by decide) rfl rfl
  have moment : detour.Moment quiet seeded.graph := .stage stage
  obtain ⟨join, atJoin⟩ : ∃ join, seeded.graph.node? ⟨3⟩ = some join := ⟨_, rfl⟩
  obtain ⟨_, wired, _, orders, _⟩ := inputs_resolved reachable_detour moment atJoin
  have short : (seeded.graph.resolveInputs ⟨3⟩)[0]? = some (.bool true) := by
    obtain ⟨seed, v, atSeed, stored, received⟩ := wired ⟨1⟩ ⟨⟨1⟩, 0, ⟨3⟩, 0⟩ rfl rfl
    cases (rfl : seeded.graph.node? ⟨1⟩ = _).symm.trans atSeed
    cases stored
    exact received
  have long : (seeded.graph.resolveInputs ⟨3⟩)[1]? = some .null := by
    obtain ⟨relay, v, atRelay, stored, received⟩ := wired ⟨3⟩ ⟨⟨2⟩, 0, ⟨3⟩, 1⟩ rfl rfl
    cases (rfl : seeded.graph.node? ⟨2⟩ = _).symm.trans atRelay
    cases stored
    exact received
  have source : ∀ edgeId edge, seeded.graph.edge? edgeId = some edge → edge.target ≠ ⟨1⟩ := by
    rintro ⟨slot⟩ edge live
    match slot with
    | 0 => cases live
    | 1 | 2 | 3 =>
      cases live
      decide
    | slot + 4 => cases live
  obtain ⟨seed, atSeed, bare⟩ : ∃ seed, seeded.graph.node? ⟨1⟩ = some seed ∧
      Port.types seed.template.inputs = [] := ⟨_, rfl, rfl⟩
  obtain ⟨_, _, _, _, _, _, passes⟩ := inputs_resolved reachable_detour moment atSeed
  exact ⟨reachable_detour, moment, rfl, short, long, orders ⟨[⟨3⟩, ⟨1⟩], []⟩ (.swap _ _ _), source,
    bare ▸ passes source⟩

end Graph

end Flowgraph
