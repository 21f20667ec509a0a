import Flowgraph.Proofs.Graph.Origin

namespace Flowgraph

/-- Whether a call ended with a crash instead of an answer. -/
def GraphError.isCrash : GraphError → Bool
  | .missingSetting .. => true
  | _ => false

/-- The error that a call ended with. -/
def Reply.error? {α : Type} (reply : Reply α) : Option GraphError :=
  match reply.result with
  | .ok _ => none
  | .error e => some e

/-- The error with which a tick was refused. -/
def TickReply.error? (reply : TickReply) : Option GraphError :=
  match reply.result with
  | .error (.refused e) => some e
  | _ => none

namespace Graph

/-- The error that a call ends with, if it ends with one. -/
def Call.error? (g : Graph) : Call → Option GraphError
  | .addNode template => (g.addNode template).error?
  | .removeNode ref => (g.removeNode ref).error?
  | .addEdge source output target input => (g.addEdge source output target input).error?
  | .removeEdge id => (g.removeEdge id).error?
  | .setInternal ref index value => (g.setInternal ref index value).error?
  | .activate ref => (g.activate ref).error?
  | .notify name payload => (g.notify name payload).error?
  | .notifyCategory category payload => (g.notifyCategory category payload).error?
  | .notifyTick dt => (g.notifyTick dt).error?
  | .notifyCollision normal other => (g.notifyCollision normal other).error?
  | .activateSources => g.activateSources.error?
  | .applyExports values => (g.applyExports values).error?
  | .tick scene => (g.tick scene).error?
  | .step scene => (g.step scene).error?

/-- The entity that a call is given to control. Only ticks are given one. -/
def Call.entity? : Call → Option Entity
  | .tick scene | .step scene => some scene.entity
  | _ => none

/-- The entity after the call that was given it. -/
def Call.entityAfter? (g : Graph) : Call → Option Entity
  | .tick scene => some (g.tick scene).entity
  | .step scene => some (g.step scene).entity
  | _ => none

/-- A node has a setting but no value for it. -/
def Unplaced (g : Graph) (id : NodeId) (index : Nat) : Prop :=
  ∃ node, g.node? id = some node ∧ node.internals.length ≤ index ∧
    index < node.template.internals.length

/-- A reply that leaves the graph alone if it is an error, unless the call crashed. -/
structure Atomic {α : Type} (g : Graph) (reply : Reply α) : Prop where
  unchanged : ∀ e, reply.error? = some e → e.isCrash = false → reply.graph = g
  unplaced : ∀ id index, reply.error? = some (.missingSetting id index) → g.Unplaced id index

variable {g : Graph} {α : Type}

theorem atomic_accept (h : Graph) (value : α) (notices : List Notice) :
    g.Atomic (h.accept value notices) := by
  constructor
  · intro e failed
    cases failed
  · intro id index failed
    cases failed

theorem atomic_refuse {e : GraphError} (answered : e.isCrash = false) :
    g.Atomic (g.refuse e : Reply α) := by
  refine ⟨fun _ _ _ => rfl, fun id index failed => ?_⟩
  cases Option.some.inj failed
  cases answered

theorem Atomic.whenIdle {reply : Reply α} (atomic : g.Atomic reply) :
    g.Atomic (g.whenIdle reply) := by
  unfold Graph.whenIdle
  split
  · exact atomic
  · exact ⟨fun _ _ _ => rfl, fun _ _ failed => by cases failed⟩

theorem isCrash_resolve {ref : NodeRef} {e : GraphError} (failed : g.resolve ref = .error e) :
    e.isCrash = false := by
  unfold resolve at failed
  split at failed
  · split at failed <;> cases failed
    rfl
  · cases failed
    rfl

theorem isCrash_port {node : NodeId} {side : PortSide} {ports : List Port} {index : Nat}
    {e : GraphError} (failed : port node side ports index = .error e) : e.isCrash = false := by
  unfold port at failed
  split at failed <;> cases failed
  rfl

/-- What may be wrong with an edge is an answer to the caller. -/
theorem isCrash_checkEdge {source target : NodeRef} {output input : Nat} {e : GraphError}
    (failed : g.checkEdge source output target input = .error e) : e.isCrash = false := by
  unfold checkEdge at failed
  simp only [bind, Except.bind] at failed
  split at failed
  · rename_i unresolved
    cases failed
    exact isCrash_resolve unresolved
  split at failed
  · rename_i unresolved
    cases failed
    exact isCrash_resolve unresolved
  split at failed
  · rename_i outside
    cases failed
    exact isCrash_port outside
  split at failed
  · rename_i outside
    cases failed
    exact isCrash_port outside
  · split at failed <;> cases failed
    rfl

theorem atomic_addNode (name : String) : g.Atomic (g.addNode name) := by
  apply Atomic.whenIdle
  cases g.registry.get? name with
  | none => exact atomic_refuse rfl
  | some template => exact atomic_accept _ _ _

theorem atomic_removeNode (ref : NodeRef) : g.Atomic (g.removeNode ref) := by
  apply Atomic.whenIdle
  cases found : g.resolve ref with
  | error e => exact atomic_refuse (isCrash_resolve found)
  | ok node => exact atomic_accept _ _ _

theorem atomic_addEdge (source : NodeRef) (output : Nat) (target : NodeRef) (input : Nat) :
    g.Atomic (g.addEdge source output target input) := by
  apply Atomic.whenIdle
  cases checked : g.checkEdge source output target input with
  | error e => exact atomic_refuse (isCrash_checkEdge checked)
  | ok ports => exact atomic_accept _ _ _

theorem atomic_removeEdge (id : EdgeId) : g.Atomic (g.removeEdge id) := by
  apply Atomic.whenIdle
  cases g.edge? id with
  | none => exact atomic_refuse rfl
  | some edge => exact atomic_accept _ _ _

theorem le_of_withInternal? {node : Node} {index : Nat} {stored : Value}
    (absent : node.withInternal? index stored = none) : node.internals.length ≤ index := by
  unfold Node.withInternal? at absent
  split at absent
  · cases absent
  · omega

/-- A setting is refused before it is written; it may only crash where the node has no place for
it. -/
theorem atomic_setInternal (ref : NodeRef) (index : Nat) (v : Value) :
    g.Atomic (g.setInternal ref index v) := by
  apply Atomic.whenIdle
  cases found : g.resolve ref with
  | error e => exact atomic_refuse (isCrash_resolve found)
  | ok node =>
    simp only
    cases read : port ref.node .internal node.template.internals index with
    | error e => exact atomic_refuse (isCrash_port read)
    | ok atIndex =>
      simp only
      cases atIndex.type.coerce? v with
      | none => exact atomic_refuse rfl
      | some stored =>
        simp only
        cases changed : node.withInternal? index stored with
        | some after => exact atomic_accept _ _ _
        | none =>
          refine ⟨fun _ _ _ => rfl, fun id other failed => ?_⟩
          cases Option.some.inj failed
          refine ⟨node, (resolve_eq_ok.mp found).2, le_of_withInternal? changed, ?_⟩
          unfold port at read
          split at read
          · rename_i inside
            exact (List.getElem?_eq_some_iff.mp inside).1
          · cases read

theorem atomic_activate (ref : NodeRef) : g.Atomic (g.activate ref) := by
  apply Atomic.whenIdle
  cases found : g.resolve ref with
  | error e => exact atomic_refuse (isCrash_resolve found)
  | ok node =>
    simp only
    split
    · exact atomic_refuse rfl
    · exact atomic_accept _ _ _

theorem atomic_notifyWhere (holds : Template → Bool) (payload : List Value) :
    g.Atomic (g.notifyWhere holds payload) :=
  (atomic_accept _ _ _).whenIdle

theorem atomic_activateSources : g.Atomic g.activateSources :=
  (atomic_accept _ _ _).whenIdle

/-- A node that cannot be tuned in its place has a port there and no value. -/
theorem unplaced_of_tune {node : Node} {values : Dictionary Value} {index : Nat}
    (tune : node.tune values = .missing index) :
    node.internals.length ≤ index ∧ index < node.template.internals.length := by
  unfold Node.tune at tune
  split at tune
  · cases tune
  rename_i position port name tunable
  split at tune
  · cases tune
  split at tune
  · cases tune
  split at tune
  · rename_i absent
    cases tune
    exact ⟨le_of_withInternal? absent,
      (List.getElem?_eq_some_iff.mp (Node.port_of_tunable? tunable)).1⟩
  · cases tune

/-- Tuning is refused only by a graph that is not idle, and crashes only at a missing place. -/
theorem atomic_applyExports (whole : g.Integrity) (values : Dictionary Value) :
    g.Atomic (g.applyExports values) := by
  apply Atomic.whenIdle
  cases missing : g.firstMissing? values with
  | none => exact atomic_accept _ _ _
  | some place =>
    -- a crash in the middle: the nodes before this one have been tuned by now
    obtain ⟨id, index⟩ := place
    refine ⟨fun e failed answered => ?_, fun _ _ failed => ?_⟩
    · cases Option.some.inj failed
      cases answered
    · cases Option.some.inj failed
      obtain ⟨node, member, found⟩ := List.exists_of_findSome?_eq_some missing
      obtain ⟨_, lacking, same⟩ := Option.map_eq_some_iff.mp found
      cases same
      obtain ⟨slot, live⟩ := mem_nodeList.mp member
      rw [← whole.own_id slot node live] at live
      cases tune : node.tune values with
      | missing place =>
        rw [tune] at lacking
        cases lacking
        obtain ⟨outside, inside⟩ := unplaced_of_tune tune
        exact ⟨node, live, outside, inside⟩
      | _ =>
        rw [tune] at lacking
        cases lacking

/-- A tick is refused only while another one is propagating. -/
theorem tick_of_refused {scene : Scene} {e : GraphError} (refused : (g.tick scene).error? = some e) :
    e = .propagating ∧ g.isIdle = false ∧ (g.tick scene).graph = g ∧
      (g.tick scene).entity = scene.entity := by
  unfold tick at refused ⊢
  split
  · rename_i idle
    rw [if_pos idle] at refused
    split at refused <;> cases refused
  · rename_i busy
    rw [if_neg busy] at refused
    cases refused
    exact ⟨rfl, by simpa using busy, rfl, rfl⟩

/-- The clock is told of first; after that the graph is idle, and the tick is not refused. -/
theorem step_of_refused {scene : Scene} {e : GraphError} (refused : (g.step scene).error? = some e) :
    e = .propagating ∧ (g.step scene).graph = g ∧ (g.step scene).entity = scene.entity := by
  by_cases idle : g.phase = .idle
  · rw [step_of_idle g scene idle] at refused
    obtain ⟨_, busy, _⟩ :=
      tick_of_refused (g := (g.notifyTick scene.world.delta).graph) refused
    have phase : (g.notifyTick scene.world.delta).graph.phase = .idle :=
      whenIdle_graph g (·.phase = .idle) _ idle idle
    simp [isIdle, phase] at busy
  · rw [step_of_busy g scene idle] at refused ⊢
    cases refused
    exact ⟨rfl, rfl, rfl⟩

/-- An atomic call that fails has changed nothing, or it has crashed at a place that is missing. -/
theorem Atomic.of_error {reply : Reply α} (atomic : g.Atomic reply) {e : GraphError}
    (failed : reply.error? = some e) :
    (e.isCrash = false → reply.graph = g) ∧
      ∀ id index, e = .missingSetting id index → g.Unplaced id index := by
  refine ⟨atomic.unchanged e failed, fun id index same => ?_⟩
  exact atomic.unplaced id index (same ▸ failed)

/-- All calls are atomic. -/
theorem Call.atomic (whole : g.Integrity) (call : Call) {e : GraphError}
    (failed : call.error? g = some e) :
    (e.isCrash = false → call.after g = g) ∧
      ∀ id index, e = .missingSetting id index → g.Unplaced id index := by
  cases call with
  | addNode template => exact (atomic_addNode template).of_error failed
  | removeNode ref => exact (atomic_removeNode ref).of_error failed
  | addEdge source output target input =>
    exact (atomic_addEdge source output target input).of_error failed
  | removeEdge id => exact (atomic_removeEdge id).of_error failed
  | setInternal ref index value => exact (atomic_setInternal ref index value).of_error failed
  | activate ref => exact (atomic_activate ref).of_error failed
  | notify | notifyCategory | notifyTick | notifyCollision =>
    exact (atomic_notifyWhere _ _).of_error failed
  | activateSources => exact atomic_activateSources.of_error failed
  | applyExports values => exact (atomic_applyExports whole values).of_error failed
  | tick scene =>
    obtain ⟨rfl, _, same, _⟩ := tick_of_refused failed
    exact ⟨fun _ => same, fun _ _ crash => by cases crash⟩
  | step scene =>
    obtain ⟨rfl, same, _⟩ := step_of_refused failed
    exact ⟨fun _ => same, fun _ _ crash => by cases crash⟩

/-- A call that is refused never gets to the entity. -/
theorem Call.entity_of_error (call : Call) {e : GraphError} (failed : call.error? g = some e) :
    call.entityAfter? g = call.entity? := by
  cases call with
  | tick scene =>
    obtain ⟨_, _, _, same⟩ := tick_of_refused failed
    exact congrArg some same
  | step scene =>
    obtain ⟨_, _, same⟩ := step_of_refused failed
    exact congrArg some same
  | _ => rfl

/-- A call that answers with an error leaves the graph as it was, and a tick or a step the entity
too, whatever the arguments and also while another tick is propagating. A call crashes instead of
answering only at a node whose template has fewer defaults than settings. -/
theorem refused_unchanged (reach : g.Reachable) (call : Call) {e : GraphError}
    (failed : call.error? g = some e) :
    (e.isCrash = false → call.after g = g) ∧ call.entityAfter? g = call.entity? ∧
      (e.isCrash = true → ∃ id node, g.node? id = some node ∧
        node.template.defaults.length < node.template.internals.length) := by
  obtain ⟨unchanged, unplaced⟩ := call.atomic reach.integrity failed
  refine ⟨unchanged, call.entity_of_error failed, fun crash => ?_⟩
  cases e with
  | missingSetting id index =>
    obtain ⟨node, live, outside, inside⟩ := unplaced id index rfl
    obtain ⟨_, settled⟩ := reach.known live
    have length := settled.length
    exact ⟨id, node, live, by omega⟩
  | _ => cases crash

/-- A graph whose tick was cut short by a node that does not return. -/
def stuck : Graph :=
  let trap := Template.Declaration.plain "flow" "Trap" [] [] (fun _ _ => { outcome := .escaped })
    false
  (empty ⟨0⟩ (Registry.declare {} [trap]) {}).afterAll
    [.addNode "Trap", .activate ⟨⟨0⟩, ⟨0⟩⟩, .tick quiet]

theorem reachable_stuck : stuck.Reachable := (Reachable.empty _ _ _).afterAll _

/-- An input that is taken, a setting that does not fit, and a step of a graph that is stuck. -/
theorem refused_unchanged_detour :
    (Call.addEdge ⟨⟨0⟩, ⟨2⟩⟩ 0 ⟨⟨0⟩, ⟨3⟩⟩ 0).error? detour = some (.inputTaken ⟨3⟩ 0) ∧
      (Call.addEdge ⟨⟨0⟩, ⟨2⟩⟩ 0 ⟨⟨0⟩, ⟨3⟩⟩ 0).after detour = detour ∧
      (Call.setInternal ⟨⟨0⟩, ⟨1⟩⟩ 0 (.string "on")).error? detour =
        some (.settingMismatch ⟨1⟩ 0 .bool "string") ∧
      (Call.setInternal ⟨⟨0⟩, ⟨1⟩⟩ 0 (.string "on")).after detour = detour ∧
      stuck.phase = .propagating ∧ (Call.step quiet).error? stuck = some .propagating ∧
      (Call.step quiet).after stuck = stuck ∧
      (Call.step quiet).entityAfter? stuck = some quiet.entity := by
  have taken : (Call.addEdge ⟨⟨0⟩, ⟨2⟩⟩ 0 ⟨⟨0⟩, ⟨3⟩⟩ 0).error? detour =
    some (.inputTaken ⟨3⟩ 0) := rfl
  have misfit : (Call.setInternal ⟨⟨0⟩, ⟨1⟩⟩ 0 (.string "on")).error? detour =
    some (.settingMismatch ⟨1⟩ 0 .bool "string") := rfl
  have busy : (Call.step quiet).error? stuck = some .propagating := rfl
  obtain ⟨step, entity, _⟩ := refused_unchanged reachable_stuck _ busy
  exact ⟨taken, (refused_unchanged reachable_detour _ taken).1 rfl, misfit,
    (refused_unchanged reachable_detour _ misfit).1 rfl, rfl, busy, step rfl, entity⟩

end Graph

end Flowgraph
