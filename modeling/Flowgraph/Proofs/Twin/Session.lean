import Flowgraph.Proofs.Saved.RoundTrip
import Flowgraph.Proofs.Twin.Tick

namespace Flowgraph

/-- What may be asked of a graph between edits. -/
inductive Request where
  | activate (ref : NodeRef)
  | setInternal (ref : NodeRef) (index : Nat) (value : Value)
  | applyExports (values : Dictionary Value)
  | notify (name : String) (payload : List Value)
  | notifyCategory (category : String) (payload : List Value)
  | activateSources
  | tick (keys : Keyboard) (world : World)
  | step (keys : Keyboard) (world : World)

/-- The answer to a request. That to a tick comes with the runs, in order. -/
inductive Answer where
  | done (result : Except GraphError Unit)
  | counted (result : Except GraphError Nat)
  | ticked (result : Except TickFailure TickReport) (runs : List Execution)

/-- All that can be seen once a request has been answered: the answer, what was logged, the entity,
and every node in order of creation with its settings, its stored results and whether it is due. -/
structure Observation where
  answer : Answer
  notices : List Notice
  entity : Entity
  nodes : List Node
  idle : Bool
  ticks : Nat

/-- A graph and the entity that it controls. -/
structure Session where
  graph : Graph
  entity : Entity

namespace Session

/-- What is seen of a session after an answer. -/
def observe (s : Session) (answer : Answer) (notices : List Notice) : Observation × Session :=
  (⟨answer, notices, s.entity, s.graph.nodeList, s.graph.isIdle, s.graph.ticks⟩, s)

def observeReply {α : Type} (s : Session) (answer : Except GraphError α → Answer)
    (reply : Reply α) : Observation × Session :=
  observe ⟨reply.graph, s.entity⟩ (answer reply.result) reply.notices

def observeTick (reply : TickReply) (runs : List Execution) : Observation × Session :=
  observe ⟨reply.graph, reply.entity⟩ (.ticked reply.result runs) reply.notices

/-- The answer to one request, and the session afterwards. -/
def ask (s : Session) : Request → Observation × Session
  | .activate ref => s.observeReply .done (s.graph.activate ref)
  | .setInternal ref index value => s.observeReply .done (s.graph.setInternal ref index value)
  | .applyExports values => s.observeReply .counted (s.graph.applyExports values)
  | .notify name payload => s.observeReply .counted (s.graph.notify name payload)
  | .notifyCategory category payload =>
    s.observeReply .counted (s.graph.notifyCategory category payload)
  | .activateSources => s.observeReply .counted s.graph.activateSources
  | .tick keys world =>
    observeTick (s.graph.tick ⟨s.entity, keys, world⟩) (s.graph.runs ⟨s.entity, keys, world⟩)
  | .step keys world =>
    observeTick (s.graph.step ⟨s.entity, keys, world⟩)
      ((s.graph.notifyTick world.delta).graph.runs ⟨s.entity, keys, world⟩)

/-- What is seen request after request. -/
def play (s : Session) : List Request → List Observation
  | [] => []
  | request :: rest => (s.ask request).1 :: play (s.ask request).2 rest

end Session

namespace Renaming

variable (r : Renaming)

def request : Request → Request
  | .activate ref => .activate (r.ref ref)
  | .setInternal ref index value => .setInternal (r.ref ref) index value
  | .applyExports values => .applyExports values
  | .notify name payload => .notify name payload
  | .notifyCategory category payload => .notifyCategory category payload
  | .activateSources => .activateSources
  | .tick keys world => .tick keys world
  | .step keys world => .step keys world

def answer : Answer → Answer
  | .done result => .done (result.mapError r.error)
  | .counted result => .counted (result.mapError r.error)
  | .ticked result runs =>
    .ticked ((result.map r.report).mapError r.failure) (runs.map r.execution)

def observation (seen : Observation) : Observation :=
  { seen with answer := r.answer seen.answer, nodes := seen.nodes.map (Node.renumber r.node) }

end Renaming

namespace Session

variable {r : Renaming} {s t : Session}

/-- Sessions over twins with the same entity. -/
structure Twin (r : Renaming) (s t : Session) : Prop where
  graph : s.graph.Twin r t.graph
  entity : t.entity = s.entity

/-- What is seen of twins is the same, and they stay twins. -/
def Alike (r : Renaming) (a b : Observation × Session) : Prop :=
  b.1 = r.observation a.1 ∧ Twin r a.2 b.2

theorem Twin.observe (twin : Twin r s t) (answer : Answer) (notices : List Notice) :
    Alike r (s.observe answer notices) (t.observe (r.answer answer) notices) := by
  refine ⟨?_, twin⟩
  simp only [Session.observe, Renaming.observation, twin.graph.nodeList, twin.graph.isIdle,
    twin.graph.ticks, twin.entity]

theorem Twin.observeReply {α : Type} {a b : Reply α} (twin : Twin r s t)
    {answer : Except GraphError α → Answer}
    (renamed : ∀ result, r.answer (answer result) = answer (result.mapError r.error))
    (agree : Graph.Agree r a b) :
    Alike r (s.observeReply answer a) (t.observeReply answer b) := by
  have after : Twin r ⟨a.graph, s.entity⟩ ⟨b.graph, t.entity⟩ := ⟨agree.graph, twin.entity⟩
  unfold Session.observeReply
  rw [agree.result, agree.notices, ← renamed]
  exact after.observe _ _

theorem alike_tick {a b : TickReply} {runs runs' : List Execution}
    (agree : Graph.TickAgree r a b) (same : runs' = runs.map r.execution) :
    Alike r (observeTick a runs) (observeTick b runs') := by
  have after : Twin r ⟨a.graph, a.entity⟩ ⟨b.graph, b.entity⟩ := ⟨agree.graph, agree.entity⟩
  unfold observeTick
  rw [agree.result, agree.notices, same]
  exact after.observe _ _

/-- One request, asked of twins. -/
theorem Twin.ask (twin : Twin r s t) (request : Request) :
    Alike r (s.ask request) (t.ask (r.request request)) := by
  have graph := twin.graph
  cases request with
  | activate ref => exact twin.observeReply (fun _ => rfl) (graph.activate ref)
  | setInternal ref index value =>
    exact twin.observeReply (fun _ => rfl) (graph.setInternal ref index value)
  | applyExports values => exact twin.observeReply (fun _ => rfl) (graph.applyExports values)
  | notify name payload =>
    exact twin.observeReply (fun _ => rfl) (graph.notifyWhere (·.name == name) payload)
  | notifyCategory category payload =>
    exact twin.observeReply (fun _ => rfl) (graph.notifyWhere (·.category == category) payload)
  | activateSources => exact twin.observeReply (fun _ => rfl) graph.activateSources
  | tick keys world =>
    simp only [Session.ask, Renaming.request, twin.entity]
    exact alike_tick (graph.tick _) (graph.runs _)
  | step keys world =>
    have told : Graph.Agree r (s.graph.notifyTick world.delta) (t.graph.notifyTick world.delta) :=
      graph.notifyWhere (·.name == Builtin.onTick) [.float world.delta]
    simp only [Session.ask, Renaming.request, twin.entity]
    exact alike_tick (graph.step _) (told.graph.runs _)

/-- Any requests, asked of twins one after the other. -/
theorem Twin.play (twin : Twin r s t) (requests : List Request) :
    t.play (requests.map r.request) = (s.play requests).map r.observation := by
  induction requests generalizing s t with
  | nil => rfl
  | cons request rest ih =>
    obtain ⟨seen, after⟩ := twin.ask request
    rw [List.map_cons, Session.play, Session.play, List.map_cons, seen, ih after]

end Session

namespace Graph

/-- A graph that was made or loaded and then only edited. -/
inductive Edited : Graph → Prop
  | empty (id : GraphId) (registry : Registry) (config : GraphConfig) :
      Edited (Graph.empty id registry config)
  | load {id : GraphId} {registry : Registry} {config : GraphConfig} {form : SavedGraph} :
      (Graph.load id registry config form).result = .ok () →
      Edited (Graph.load id registry config form).graph
  | edit {g : Graph} : Edited g → (call : Call) → call.Edits → Edited (call.after g)

theorem Edited.reachable {g : Graph} (edited : g.Edited) : g.Reachable := by
  induction edited with
  | empty id registry config => exact .empty id registry config
  | load loaded => exact .load loaded
  | edit _ call _ ih => exact ih.call call

/-- Edits leave a graph at rest, with nodes as they were made. -/
theorem Edited.fresh {g : Graph} (edited : g.Edited) :
    g.Fresh ∧ g.phase = .idle ∧ g.ticks = 0 := by
  induction edited with
  | empty id registry config => exact ⟨fresh_empty id registry config, rfl, rfl⟩
  | @load id registry config form =>
    obtain ⟨fresh, around⟩ := fresh_load id registry config form
    exact ⟨fresh, (congrArg Graph.phase around :), (congrArg Graph.ticks around :)⟩
  | @edit g _ call edits ih =>
    obtain ⟨fresh, phase, ticks⟩ := ih
    have around := Call.surroundings_after call edits g
    have samePhase : (call.after g).phase = g.phase := (congrArg Graph.phase around :)
    have sameTicks : (call.after g).ticks = g.ticks := (congrArg Graph.ticks around :)
    exact ⟨fresh.edit call edits, samePhase.trans phase, sameTicks.trans ticks⟩

/-- The copy of a node that never ran is the node under another number. -/
theorem Made.copy_eq {registry : Registry} {id : NodeId} {node : Node}
    (made : Made registry id node) (other : NodeId) : copy other node = { node with id := other } := by
  have outputs : node.outputs = Port.zeros node.template.outputs :=
    (congrArg Node.outputs made.unused :)
  have active : node.active = false := (congrArg Node.active made.unused :)
  have payload : node.payload = none := (congrArg Node.payload made.unused :)
  unfold copy Node.stamp
  rw [← outputs, ← active, ← payload]

/-- The numbers of a graph and of its nodes in another graph, in which nodes are numbered by their
position. The two graphs change places, so that other graphs stay other graphs. -/
def compaction (g : Graph) (id : GraphId) : Renaming where
  graph other := if other = g.id then id else if other = id then g.id else other
  node := g.rank

/-- No other graph takes the number of the loaded one. -/
theorem compaction_foreign {g : Graph} {id other : GraphId}
    (same : (g.compaction id).graph other = id) : other = g.id := by
  simp only [compaction] at same
  split at same
  · assumption
  · rename_i foreign
    split at same
    · rename_i here
      exact here.trans same.symm
    · rename_i elsewhere
      exact absurd same elsewhere

/-- What is loaded of an edited graph is its twin. -/
theorem Compacts.twin {g h : Graph} (compact : g.Compacts h) (edited : g.Edited)
    (blind : ∀ t ∈ g.registry.templates, t.Blind)
    (around : h.surroundings = empty h.id g.registry g.config) : Twin (g.compaction h.id) g h := by
  have whole := edited.reachable.integrity
  obtain ⟨fresh, phase, ticks⟩ := edited.fresh
  refine ⟨(if_pos rfl).symm, fun other => compaction_foreign, fun a b => whole.rank_injective,
    fun a b => whole.rank_strictMono, fun id => ?_, fun id live => ?_, compact.wires, whole,
    compact.whole, (congrArg Graph.config around :), ?_, ?_, fun id node live => ?_⟩
  · refine (whole.node?_rank compact.whole compact.nodes id).trans ?_
    cases live : g.node? id with
    | none => rfl
    | some node =>
      have own : node.id = id := whole.own_id id node live
      have copied := (fresh id node live).copy_eq (g.rank id)
      subst own
      exact congrArg some copied
  · obtain ⟨old, _, same⟩ := (compact.live_iff whole).mp live
    exact ⟨old, same⟩
  · rw [phase]
    exact (congrArg Graph.phase around :)
  · rw [ticks]
    exact (congrArg Graph.ticks around :)
  · obtain ⟨name, found⟩ := (fresh id node live).known
    exact blind _ (List.mem_map_of_mem (Dictionary.mem_of_get? found))

/-- An edited graph and the graph loaded from what was saved of it answer every sequence of
requests alike: the same results and errors, the same runs and faults in the same order, the same
notices, the same entity, and the same settings, stored results and due nodes, each node under its
position. -/
theorem reload_faithful {g : Graph} {declarations : List Template.Declaration} (edited : g.Edited)
    (declared : g.registry = Registry.declare {} declarations)
    (fits : ∀ t ∈ g.registry.templates, t.Restorable)
    (blind : ∀ t ∈ g.registry.templates, t.Blind) (id : GraphId) (entity : Entity)
    (requests : List Request) :
    (load id g.registry g.config g.save).result = .ok () ∧
      (∀ (p : Nat) node, g.nodeList[p]? = some node → (g.compaction id).node node.id = ⟨p⟩) ∧
      Session.play ⟨(load id g.registry g.config g.save).graph, entity⟩
          (requests.map (g.compaction id).request) =
        (Session.play ⟨g, entity⟩ requests).map (g.compaction id).observation := by
  have whole := edited.reachable.integrity
  obtain ⟨result, compact⟩ :=
    whole.load_save (edited.reachable.kept declared fits) id g.config
  obtain ⟨_, around⟩ := fresh_load id g.registry g.config g.save
  have own : (load id g.registry g.config g.save).graph.id = id := (congrArg Graph.id around :)
  have twin := compact.twin edited blind (by rw [own]; exact around)
  rw [own] at twin
  refine ⟨result, fun p node atP => whole.rank_eq atP, ?_⟩
  have sessions : Session.Twin (g.compaction id) ⟨g, entity⟩
      ⟨(load id g.registry g.config g.save).graph, entity⟩ := ⟨twin, rfl⟩
  exact sessions.play requests

/-- None of these evaluators looks at the number of its node. -/
theorem blind_flow {t : Template} (member : t ∈ (Registry.declare {} flow).templates) :
    t.Blind := by
  rcases Registry.mem_templates_declare flow member with old | ⟨d, declared, rfl⟩
  · cases old
  · simp only [flow, List.mem_cons, List.not_mem_nil, or_false] at declared
    rcases declared with rfl | rfl | rfl
    · intro evaluator found
      cases found
    · intro evaluator found inputs context id
      cases found
      rfl
    · intro evaluator found inputs context id
      cases found
      rfl

/-- Three ticks, between which the seed is set, and a request for a node that was removed. -/
def probing : List Request :=
  [.activateSources, .tick {} {}, .setInternal ⟨⟨0⟩, ⟨1⟩⟩ 0 (.bool true), .activate ⟨⟨0⟩, ⟨1⟩⟩,
    .tick {} {}, .activate ⟨⟨0⟩, ⟨0⟩⟩, .step {} {}]

theorem edited_rewired : rewired.Edited := by
  have edits (calls : List Call) (all : ∀ call ∈ calls, call.Edits) {g : Graph}
      (edited : g.Edited) : (g.afterAll calls).Edited := by
    induction calls generalizing g with
    | nil => exact edited
    | cons call rest ih =>
      obtain ⟨first, others⟩ := List.forall_mem_cons.mp all
      exact ih others (edited.edit call first)
  refine edits rewiring ?_ (Edited.empty _ _ _)
  simp only [rewiring, List.forall_mem_cons, Call.Edits, true_and]
  exact fun _ member => absurd member List.not_mem_nil

theorem reload_faithful_rewired :
    rewired.Edited ∧ (∀ t ∈ rewired.registry.templates, t.Restorable) ∧
      (∀ t ∈ rewired.registry.templates, t.Blind) ∧
      (Session.play ⟨rewired, quiet.entity⟩ probing).map (·.ticks) = [0, 1, 1, 1, 2, 2, 3] ∧
      Session.play ⟨(load ⟨1⟩ rewired.registry rewired.config rewired.save).graph, quiet.entity⟩
          (probing.map (rewired.compaction ⟨1⟩).request) =
        (Session.play ⟨rewired, quiet.entity⟩ probing).map (rewired.compaction ⟨1⟩).observation := by
  have fits : ∀ t ∈ rewired.registry.templates, t.Restorable := fun t => restorable_flow
  have blind : ∀ t ∈ rewired.registry.templates, t.Blind := fun t => blind_flow
  obtain ⟨_, _, same⟩ :=
    reload_faithful edited_rewired registry_rewired fits blind ⟨1⟩ quiet.entity probing
  exact ⟨edited_rewired, fits, blind, by decide +kernel, same⟩

end Graph

end Flowgraph
