import Flowgraph.Proofs.Graph.Reachable
import Flowgraph.Proofs.Saved.Settings

namespace Flowgraph

/-- One setting has got a value that its port stores. -/
def Node.Tuned (old new : Node) : Prop :=
  ∃ (index : Nat) (port : Port) (v stored : Value), old.template.internals[index]? = some port ∧
    port.type.coerce? v = some stored ∧ old.withInternal? index stored = some new

/-- Tuning touches nothing of a node but its settings. -/
theorem Node.Tuned.eq {old new : Node} (tuned : old.Tuned new) :
    ∃ internals, new = { old with internals } := by
  obtain ⟨index, port, v, stored, _, _, set⟩ := tuned
  unfold Node.withInternal? at set
  split at set
  · cases set
    exact ⟨_, rfl⟩
  · cases set

theorem Node.port_of_tunable? {node : Node} {index : Nat} {port : Port} {name : String}
    (tunable : node.tunable? = some (index, port, name)) :
    node.template.internals[index]? = some port := by
  unfold tunable? at tunable
  split at tunable
  · cases tunable
  obtain ⟨position, _, tunable⟩ := Option.bind_eq_some_iff.mp tunable
  obtain ⟨named, _, tunable⟩ := Option.bind_eq_some_iff.mp tunable
  obtain ⟨text, _, tunable⟩ := Option.bind_eq_some_iff.mp tunable
  obtain ⟨found, atPosition, same⟩ := Option.bind_eq_some_iff.mp tunable
  cases same
  exact atPosition

theorem Node.tuned_of_tune {node changed : Node} {values : Dictionary Value}
    (tune : node.tune values = .tuned changed) : node.Tuned changed := by
  unfold Node.tune at tune
  split at tune
  · cases tune
  rename_i index port name tunable
  split at tune
  · cases tune
  rename_i v _
  split at tune
  · cases tune
  rename_i stored coerced
  split at tune
  · cases tune
  rename_i set
  cases tune
  exact ⟨index, port, v, stored, port_of_tunable? tunable, coerced, set⟩

namespace Graph

variable {g : Graph} {id : NodeId} {node : Node}

/-- Where a node comes from that is there after an edit: it is new and in a new slot, or it was
there before and at most a setting is another. -/
def Origin (g : Graph) (id : NodeId) (node : Node) : Prop :=
  (∃ name t, g.registry.get? name = some t ∧ id.index = g.nodes.size ∧
      node = Node.stamp id t) ∨
    ∃ old, g.node? id = some old ∧ (node = old ∨ old.Tuned node)

/-- Setting a setting changes at most that setting of that node. -/
theorem setInternal_cases (g : Graph) (ref : NodeRef) (index : Nat) (v : Value) :
    (g.setInternal ref index v).graph = g ∨ ∃ old new,
      g.node? ref.node = some old ∧ old.Tuned new ∧
        (g.setInternal ref index v).graph = g.setNode ref.node new := by
  unfold setInternal whenIdle
  split
  · cases found : g.resolve ref with
    | error => exact Or.inl rfl
    | ok old =>
      simp only [port]
      cases atIndex : old.template.internals[index]? with
      | none => exact Or.inl rfl
      | some port =>
        simp only
        cases coerced : port.type.coerce? v with
        | none => exact Or.inl rfl
        | some stored =>
          simp only
          cases set : old.withInternal? index stored with
          | none => exact Or.inl rfl
          | some new =>
            have tuned : old.Tuned new := ⟨index, port, v, stored, atIndex, coerced, set⟩
            exact Or.inr ⟨old, new, (resolve_eq_ok.mp found).2, tuned, rfl⟩
  · exact Or.inl rfl

/-- What edits do not touch. -/
def surroundings (g : Graph) : Graph :=
  { g with nodes := #[], adjacency := #[], edges := #[], liveNodes := 0, liveEdges := 0 }

/-- Taking edges out touches only edges and lists. -/
theorem detachEdges_frame (ids : List EdgeId) (g : Graph) :
    (ids.foldl detachEdge g).nodes = g.nodes ∧
      (ids.foldl detachEdge g).surroundings = g.surroundings := by
  induction ids generalizing g with
  | nil => exact ⟨rfl, rfl⟩
  | cons first rest ih =>
    have one : (g.detachEdge first).surroundings = g.surroundings := by
      unfold detachEdge
      split <;> rfl
    obtain ⟨nodes, others⟩ := ih (g.detachEdge first)
    exact ⟨nodes.trans (g.nodes_detachEdge first).1, others.trans one⟩

namespace Call

/-- Whether a call changes the nodes, the edges or the settings, as opposed to what is due. -/
def Edits : Call → Prop
  | .addNode _ | .removeNode _ | .addEdge .. | .removeEdge _ | .setInternal .. | .applyExports _ =>
    True
  | _ => False

/-- An edit touches neither the identity of a graph nor its registry, its configuration and its
phase. -/
theorem surroundings_after (call : Call) (edits : call.Edits) (g : Graph) :
    (call.after g).surroundings = g.surroundings := by
  have idle {α : Type} (reply : Reply α) (same : reply.graph.surroundings = g.surroundings) :
      (g.whenIdle reply).graph.surroundings = g.surroundings :=
    whenIdle_graph g (·.surroundings = g.surroundings) reply rfl same
  cases call with
  | addNode name =>
    refine idle _ ?_
    cases g.registry.get? name <;> rfl
  | removeNode ref =>
    refine idle _ ?_
    cases g.resolve ref with
    | error => rfl
    | ok => exact (detachEdges_frame _ _).2
  | addEdge source output target input =>
    refine idle _ ?_
    cases g.checkEdge source output target input <;> rfl
  | removeEdge id =>
    refine idle _ ?_
    cases g.edge? id with
    | none => rfl
    | some => exact (detachEdges_frame [id] g).2
  | setInternal ref index value =>
    rcases g.setInternal_cases ref index value with same | ⟨old, new, _, _, set⟩
    · exact congrArg surroundings same
    · exact (congrArg surroundings set).trans rfl
  | applyExports values =>
    refine idle _ ?_
    split <;> rfl
  | _ => exact edits.elim

/-- A call that is no edit keeps the program. -/
theorem program_after (call : Call) (runs : ¬ call.Edits) (g : Graph) :
    (call.after g).program = g.program := by
  cases call with
  | addNode | removeNode | addEdge | removeEdge | setInternal | applyExports =>
    exact absurd trivial runs
  | activate ref => exact g.program_activate ref
  | notify | notifyCategory | notifyTick | notifyCollision => exact g.program_notifyWhere _ _
  | activateSources => exact g.program_activateSources
  | tick scene => exact g.program_tick scene
  | step scene => exact g.program_step scene

theorem id_after (call : Call) (g : Graph) : (call.after g).id = g.id := by
  by_cases edits : call.Edits
  · exact (congrArg Graph.id (call.surroundings_after edits g) :)
  · exact (congrArg Graph.id (call.program_after edits g) :)

theorem registry_after (call : Call) (g : Graph) : (call.after g).registry = g.registry := by
  by_cases edits : call.Edits
  · exact (congrArg Graph.registry (call.surroundings_after edits g) :)
  · exact (congrArg Graph.registry (call.program_after edits g) :)

/-- After an edit each node was there before, as it is or with another setting, or it has just been
stamped out. -/
theorem origin_after (call : Call) (edits : call.Edits) (g : Graph) :
    ∀ id node, (call.after g).node? id = some node → g.Origin id node := by
  have kept (id : NodeId) (node : Node) (live : g.node? id = some node) : g.Origin id node :=
    Or.inr ⟨node, live, Or.inl rfl⟩
  have idle {α : Type} (reply : Reply α)
      (origins : ∀ id node, reply.graph.node? id = some node → g.Origin id node) :
      ∀ id node, (g.whenIdle reply).graph.node? id = some node → g.Origin id node :=
    whenIdle_graph g (fun h => ∀ id node, h.node? id = some node → g.Origin id node) reply kept
      origins
  cases call with
  | addNode name =>
    refine idle _ ?_
    cases found : g.registry.get? name with
    | none => exact kept
    | some t =>
      intro id node live
      have read := g.node?_withNode t id
      rw [show (g.withNode t).node? id = some node from live] at read
      split at read
      · rename_i last
        have here : id = ⟨g.nodes.size⟩ := NodeId.index_inj.mp last
        cases read
        exact Or.inl ⟨name, t, found, last, by rw [here]⟩
      · exact kept id node read.symm
  | removeNode ref =>
    refine idle _ ?_
    cases g.resolve ref with
    | error => exact kept
    | ok =>
      intro id node live
      simp only [accept] at live
      rw [(detachEdges_frame _ _).1] at live
      have read := g.node?_withoutNode ref.node id
      rw [show (g.withoutNode ref.node).node? id = some node from live] at read
      split at read
      · cases read
      · exact kept id node read.symm
  | addEdge source output target input =>
    refine idle _ ?_
    cases g.checkEdge source output target input <;> exact kept
  | removeEdge edge =>
    refine idle _ ?_
    cases g.edge? edge with
    | none => exact kept
    | some =>
      simp only [accept, node?_detachEdge]
      exact kept
  | setInternal ref index v =>
    intro id node live
    rcases g.setInternal_cases ref index v with same | ⟨old, new, atRef, tuned, set⟩
    · exact kept id node (same ▸ live)
    · have changed : (after g (.setInternal ref index v)) = g.setNode ref.node new := set
      rw [changed, node?_setNode atRef] at live
      split at live
      · rename_i here
        cases live
        subst here
        exact Or.inr ⟨old, atRef, Or.inr tuned⟩
      · exact kept id node live
  | applyExports values =>
    have tuned (holds : Node → Bool) (id : NodeId) (node : Node)
        (live : (g.tuneWhere holds values).graph.node? id = some node) : g.Origin id node := by
      simp only [tuneWhere, accept] at live
      rw [node?_mapNodes] at live
      obtain ⟨old, atId, rfl⟩ := Option.map_eq_some_iff.mp live
      refine Or.inr ⟨old, atId, ?_⟩
      split
      · cases tune : old.tune values with
        | tuned changed => exact Or.inr (Node.tuned_of_tune tune)
        | _ => exact Or.inl rfl
      · exact Or.inl rfl
    refine idle _ ?_
    split
    · exact tuned _
    · exact tuned _
  | _ => exact edits.elim

end Call

theorem registry_afterAll (g : Graph) (calls : List Call) :
    (g.afterAll calls).registry = g.registry := by
  induction calls generalizing g with
  | nil => rfl
  | cons call rest ih => exact (ih _).trans (call.registry_after g)

/-- A node of a registered template as it was stamped out, but for its settings. -/
structure Made (registry : Registry) (id : NodeId) (node : Node) : Prop where
  known : ∃ name, registry.get? name = some node.template
  settled : node.Settled
  unused : node = { Node.stamp id node.template with internals := node.internals }

theorem made_stamp {registry : Registry} {name : String} {t : Template}
    (found : registry.get? name = some t) (id : NodeId) : Made registry id (Node.stamp id t) :=
  ⟨⟨name, found⟩, Node.settled_stamp id t, rfl⟩

theorem known_tuned {registry : Registry} {old new : Node} (tuned : old.Tuned new)
    (known : (∃ name, registry.get? name = some old.template) ∧ old.Settled) :
    (∃ name, registry.get? name = some new.template) ∧ new.Settled := by
  obtain ⟨index, port, v, stored, atIndex, coerced, set⟩ := tuned
  have template : new.template = old.template :=
    (congrArg Node.template (Node.bare_withInternal set) :)
  exact ⟨template ▸ known.1, known.2.withInternal atIndex coerced set⟩

theorem Made.tuned {registry : Registry} {new : Node} (made : Made registry id node)
    (tuned : node.Tuned new) : Made registry id new := by
  obtain ⟨known, settled⟩ := known_tuned tuned ⟨made.known, made.settled⟩
  obtain ⟨internals, rfl⟩ := tuned.eq
  refine ⟨known, settled, ?_⟩
  rw [made.unused]
  rfl

/-- Every node of the graph is as it was made. -/
def Fresh (g : Graph) : Prop := ∀ id node, g.node? id = some node → Made g.registry id node

theorem fresh_empty (id : GraphId) (registry : Registry) (config : GraphConfig) :
    (empty id registry config).Fresh := by
  intro other node live
  simp [node?, empty] at live

/-- No edit makes a node due or gives it results. -/
theorem Fresh.edit (fresh : g.Fresh) (call : Call) (edits : call.Edits) :
    (call.after g).Fresh := by
  intro id node live
  rw [call.registry_after]
  rcases Call.origin_after call edits g id node live with
    ⟨name, t, found, _, rfl⟩ | ⟨old, atId, same | tuned⟩
  · exact made_stamp found id
  · exact same ▸ fresh id old atId
  · exact (fresh id old atId).tuned tuned

theorem Fresh.loadNode (fresh : g.Fresh) (saved : SavedNode) :
    (g.loadNode saved).graph.Fresh ∧
      (g.loadNode saved).graph.surroundings = g.surroundings := by
  have added : (g.addNode saved.template).graph.Fresh :=
    fresh.edit (.addNode saved.template) trivial
  have around : (g.addNode saved.template).graph.surroundings = g.surroundings :=
    Call.surroundings_after (.addNode saved.template) trivial g
  unfold Graph.loadNode
  simp only
  split
  · exact ⟨added, around⟩
  · split
    · exact ⟨added, around⟩
    · rename_i ref _ _ node live
      refine ⟨fun id other atId => ?_, around⟩
      simp only at atId
      rw [node?_setNode live] at atId
      split at atId
      · rename_i here
        cases atId
        subst here
        have made := added ref.node node live
        refine ⟨made.known, settled_restore made.settled saved.settings, ?_⟩
        rw [made.unused]
        rfl
      · exact added id other atId

theorem Fresh.loadNodes (fresh : g.Fresh) (saved : List SavedNode) :
    (g.loadNodes saved).graph.Fresh ∧
      (g.loadNodes saved).graph.surroundings = g.surroundings := by
  induction saved generalizing g with
  | nil => exact ⟨fresh, rfl⟩
  | cons first rest ih =>
    obtain ⟨added, around⟩ := fresh.loadNode first
    unfold Graph.loadNodes
    simp only
    split
    · exact ⟨added, around⟩
    · obtain ⟨others, same⟩ := ih added
      exact ⟨others, same.trans around⟩

theorem Fresh.loadEdges (fresh : g.Fresh) (refs : List NodeRef) (saved : List SavedEdge) :
    (g.loadEdges refs saved).graph.Fresh ∧
      (g.loadEdges refs saved).graph.surroundings = g.surroundings := by
  induction saved generalizing g with
  | nil => exact ⟨fresh, rfl⟩
  | cons first rest ih =>
    unfold Graph.loadEdges
    split
    · rename_i source target _ _
      have added : (g.addEdge source first.output target first.input).graph.Fresh :=
        fresh.edit (.addEdge source first.output target first.input) trivial
      have around := Call.surroundings_after
        (.addEdge source first.output target first.input) trivial g
      simp only
      split
      · exact ⟨added, around⟩
      · obtain ⟨others, same⟩ := ih added
        exact ⟨others, same.trans around⟩
    · exact ih fresh

/-- A loaded graph has nothing due and nothing but zeros stored, also where loading has failed on
the way. -/
theorem fresh_load (id : GraphId) (registry : Registry) (config : GraphConfig)
    (form : SavedGraph) :
    (load id registry config form).graph.Fresh ∧
      (load id registry config form).graph.surroundings = empty id registry config := by
  have start := fresh_empty id registry config
  obtain ⟨nodes, around⟩ := start.loadNodes form.nodes
  unfold load
  simp only
  split
  · exact ⟨start, rfl⟩
  · split
    · exact ⟨nodes, around⟩
    · obtain ⟨edges, same⟩ := nodes.loadEdges _ form.edges
      exact ⟨edges, same.trans around⟩

/-- Every node of a reachable graph is of a registered template, with settled settings. -/
theorem Reachable.known {g : Graph} (reach : g.Reachable) {id : NodeId} {node : Node}
    (live : g.node? id = some node) :
    (∃ name, g.registry.get? name = some node.template) ∧ node.Settled := by
  induction reach generalizing id node with
  | empty graph registry config =>
    have made := fresh_empty graph registry config id node live
    exact ⟨made.known, made.settled⟩
  | load =>
    have made := (fresh_load _ _ _ _).1 id node live
    exact ⟨made.known, made.settled⟩
  | @call g _ call ih =>
    rw [call.registry_after]
    by_cases edits : call.Edits
    · rcases Call.origin_after call edits g id node live with
        ⟨name, t, found, _, rfl⟩ | ⟨old, atId, same | tuned⟩
      · exact ⟨⟨name, found⟩, Node.settled_stamp id t⟩
      · exact same ▸ ih atId
      · exact known_tuned tuned (ih atId)
    -- any other call leaves the program, and with it every template and setting
    · have program := Call.program_after call edits g
      obtain ⟨old, atId, _⟩ := node?_of_skeleton (skeleton_eq_of_program program) live
      have still := still_of_program program.symm atId live
      have template : node.template = old.template := (congrArg Node.template still :)
      obtain ⟨known, settled⟩ := ih atId
      rw [template]
      exact ⟨known, settled.of_still still⟩

/-- The nodes of a graph are of templates in its registry. -/
theorem Reachable.registered (reach : g.Reachable) (live : g.node? id = some node) :
    node.template ∈ g.registry.templates := by
  obtain ⟨⟨name, found⟩, _⟩ := reach.known live
  exact List.mem_map_of_mem (Dictionary.mem_of_get? found)

end Graph

end Flowgraph
