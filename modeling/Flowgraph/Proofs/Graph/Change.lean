import Flowgraph.Proofs.Graph.Origin

namespace Flowgraph

/-- What event nodes are told: for which templates it is, and the values. -/
structure Notification where
  holds : Template → Bool
  payload : List Value

/-- Whether a notification is for a node. -/
def Notification.matches (n : Notification) (node : Node) : Bool :=
  node.template.isEvent && n.holds node.template

/-- What a call other than a tick makes of a node, by what the call tells it. -/
inductive Node.Change (old : Node) : Option (List Value) → Node → Prop
  | same : Change old none old
  | tuned {new : Node} : old.Tuned new → Change old none new
  | due : old.template.isEvent = false → Change old none { old with active := true }
  | told (payload : List Value) : old.template.isEvent = true →
      Change old (some payload) (old.arm payload)

/-- Between ticks a node keeps its template and what it has stored. -/
theorem Node.Change.outputs {old new : Node} {told : Option (List Value)}
    (change : old.Change told new) : new.template = old.template ∧ new.outputs = old.outputs := by
  cases change with
  | same | due | told => exact ⟨rfl, rfl⟩
  | tuned tuned =>
    obtain ⟨internals, rfl⟩ := tuned.eq
    exact ⟨rfl, rfl⟩

namespace Graph

/-- Whether a call runs a tick. -/
def Call.Ticks : Call → Prop
  | .tick _ | .step _ => True
  | _ => False

/-- The notification that a call makes. -/
def Call.notification? : Call → Option Notification
  | .notify name payload => some ⟨(·.name == name), payload⟩
  | .notifyCategory category payload => some ⟨(·.category == category), payload⟩
  | .notifyTick dt => some ⟨(·.name == Builtin.onTick), [.float dt]⟩
  | .notifyCollision normal other =>
    some ⟨(·.name == Builtin.onCollide), [normal.toValue, .handle other]⟩
  | _ => none

/-- What a call tells a node of the graph: a notification reaches the event nodes that it is for,
unless a tick is propagating. -/
def Call.tells? (g : Graph) (call : Call) (node : Node) : Option (List Value) :=
  call.notification?.bind fun n =>
    if g.isIdle && n.matches node then some n.payload else none

variable {g : Graph} {id : NodeId} {node : Node}

/-- Induction over the reachable graphs in which a step counts as the two calls that it is made of,
the notification of the clock and the tick. -/
@[elab_as_elim]
theorem Reachable.induct {motive : Graph → Prop}
    (empty : ∀ id registry config, motive (Graph.empty id registry config))
    (load : ∀ id registry config form, (Graph.load id registry config form).result = .ok () →
      motive (Graph.load id registry config form).graph)
    (between : ∀ {g : Graph} (call : Call), ¬ call.Ticks → g.Reachable → motive g →
      motive (call.after g))
    (tick : ∀ {g : Graph} scene, g.Reachable → motive g → motive (g.tick scene).graph)
    (reach : g.Reachable) : motive g := by
  induction reach with
  | empty id registry config => exact empty id registry config
  | load loaded => exact load _ _ _ _ loaded
  | @call g reach call ih =>
    by_cases ticks : call.Ticks
    · cases call with
      | tick scene => exact tick scene reach ih
      | step scene =>
        have told := between (.notifyTick scene.world.delta) (fun ticks => ticks) reach ih
        rw [Call.after, (g.step_eq_tick scene).2.1]
        exact tick scene (reach.call (.notifyTick scene.world.delta)) told
      | _ => exact ticks.elim
    · exact between call ticks reach ih

theorem node?_notifyWhere (g : Graph) (n : Notification) (id : NodeId) :
    (g.notifyWhere n.holds n.payload).graph.node? id = (g.node? id).map fun node =>
      if g.isIdle && n.matches node then node.arm n.payload else node := by
  unfold notifyWhere whenIdle
  cases g.isIdle with
  | true => exact node?_mapNodes g _ id
  | false => simp

theorem node?_activateSources (g : Graph) (id : NodeId) :
    g.activateSources.graph.node? id = (g.node? id).map fun node =>
      if g.isIdle && isSource node then { node with active := true } else node := by
  unfold activateSources whenIdle
  cases g.isIdle with
  | true => exact node?_mapNodes g _ id
  | false => simp

namespace Call

theorem after_of_notification {call : Call} {n : Notification} (notifies : call.notification? = some n)
    (g : Graph) : call.after g = (g.notifyWhere n.holds n.payload).graph := by
  cases call with
  | notify | notifyCategory | notifyTick | notifyCollision =>
    cases notifies
    rfl
  | _ => cases notifies

/-- What a notification does to a node is one of the changes, with the payload that the node is
told. -/
theorem change_notification {call : Call} {n : Notification}
    (notifies : call.notification? = some n) (live : (call.after g).node? id = some node) :
    ∃ old, g.node? id = some old ∧ old.Change (call.tells? g old) node := by
  rw [after_of_notification notifies, node?_notifyWhere] at live
  obtain ⟨old, atId, rfl⟩ := Option.map_eq_some_iff.mp live
  refine ⟨old, atId, ?_⟩
  simp only [tells?, notifies, Option.bind_some]
  split
  · rename_i reached
    simp only [Notification.matches, Bool.and_eq_true] at reached
    exact .told n.payload reached.2.1
  · exact .same

/-- Between ticks a node is new, or it is one of before and `Node.Change` says what is left of
it. -/
theorem change_after (call : Call) (between : ¬ call.Ticks) (g : Graph) {id : NodeId} {node : Node}
    (live : (call.after g).node? id = some node) :
    (∃ name t, g.registry.get? name = some t ∧ id.index = g.nodes.size ∧
        node = Node.stamp id t) ∨
      ∃ old, g.node? id = some old ∧ old.Change (call.tells? g old) node := by
  by_cases edits : call.Edits
  · have silent (old : Node) : call.tells? g old = none := by
      cases call with
      | addNode | removeNode | addEdge | removeEdge | setInternal | applyExports => rfl
      | _ => exact edits.elim
    refine (origin_after call edits g id node live).imp_right ?_
    rintro ⟨old, atId, rfl | tuned⟩
    · exact ⟨node, atId, silent node ▸ .same⟩
    · exact ⟨old, atId, silent old ▸ .tuned tuned⟩
  refine Or.inr ?_
  cases call with
  | notify | notifyCategory | notifyTick | notifyCollision => exact change_notification rfl live
  | activate ref =>
    have changed : ∀ id node, (g.activate ref).graph.node? id = some node →
        ∃ old, g.node? id = some old ∧ old.Change none node := by
      refine whenIdle_graph g (fun h => ∀ id node, h.node? id = some node →
        ∃ old, g.node? id = some old ∧ old.Change none node) _
        (fun id node atId => ⟨node, atId, .same⟩) ?_
      cases found : g.resolve ref with
      | error => exact fun id node atId => ⟨node, atId, .same⟩
      | ok target =>
        simp only
        split
        · exact fun id node atId => ⟨node, atId, .same⟩
        · rename_i waits
          intro id node atId
          have atRef := (resolve_eq_ok.mp found).2
          simp only [accept, node?_setNode atRef] at atId
          split at atId
          · rename_i here
            cases atId
            exact ⟨target, here ▸ atRef, .due (by simpa using waits)⟩
          · exact ⟨node, atId, .same⟩
    exact changed id node live
  | activateSources =>
    rw [after, node?_activateSources] at live
    obtain ⟨old, atId, rfl⟩ := Option.map_eq_some_iff.mp live
    refine ⟨old, atId, ?_⟩
    split
    · rename_i source
      simp only [isSource, Bool.and_eq_true, Bool.not_eq_true'] at source
      exact .due source.2.1
    · exact .same
  | tick | step => exact absurd trivial between
  | _ => exact absurd trivial edits

/-- The clock of a graph stands still between ticks. -/
theorem clock_after (call : Call) (between : ¬ call.Ticks) (g : Graph) :
    (call.after g).phase = g.phase ∧ (call.after g).ticks = g.ticks := by
  by_cases edits : call.Edits
  · have around := call.surroundings_after edits g
    exact ⟨(congrArg Graph.phase around :), (congrArg Graph.ticks around :)⟩
  have idle {α : Type} (reply : Reply α)
      (same : reply.graph.phase = g.phase ∧ reply.graph.ticks = g.ticks) :
      (g.whenIdle reply).graph.phase = g.phase ∧ (g.whenIdle reply).graph.ticks = g.ticks :=
    whenIdle_graph g (fun h => h.phase = g.phase ∧ h.ticks = g.ticks) reply ⟨rfl, rfl⟩ same
  cases call with
  | activate ref =>
    refine idle _ ?_
    cases g.resolve ref with
    | error => exact ⟨rfl, rfl⟩
    | ok =>
      simp only
      split <;> exact ⟨rfl, rfl⟩
  | notify | notifyCategory | notifyTick | notifyCollision | activateSources =>
    exact idle _ ⟨rfl, rfl⟩
  | tick | step => exact absurd trivial between
  | _ => exact absurd trivial edits

/-- Only a tick changes whether a graph is idle. -/
theorem phase_after (call : Call) (between : ¬ call.Ticks) (g : Graph) :
    (call.after g).phase = g.phase :=
  (call.clock_after between g).1

/-- Slots are never given up. -/
theorem size_after (call : Call) (g : Graph) : g.nodes.size ≤ (call.after g).nodes.size := by
  by_cases edits : call.Edits
  case neg =>
    have sizes := congrArg (·.nodes.size) (call.program_after edits g)
    simp only [program, strip, Array.size_map] at sizes
    exact Nat.le_of_eq sizes.symm
  have idle {α : Type} (reply : Reply α) (more : g.nodes.size ≤ reply.graph.nodes.size) :
      g.nodes.size ≤ (g.whenIdle reply).graph.nodes.size :=
    whenIdle_graph g (g.nodes.size ≤ ·.nodes.size) reply (Nat.le_refl _) more
  cases call with
  | addNode name =>
    refine idle _ ?_
    cases g.registry.get? name with
    | none => exact Nat.le_refl _
    | some t =>
      change g.nodes.size ≤ (g.nodes.push _).size
      simp
  | removeNode ref =>
    refine idle _ ?_
    cases g.resolve ref with
    | error => exact Nat.le_refl _
    | ok =>
      simp only [accept, (detachEdges_frame _ _).1]
      simp
  | addEdge source output target input =>
    refine idle _ ?_
    cases g.checkEdge source output target input <;> exact Nat.le_refl _
  | removeEdge id =>
    refine idle _ ?_
    cases g.edge? id with
    | none => exact Nat.le_refl _
    | some => simp [accept, (g.nodes_detachEdge id).1]
  | setInternal ref index value =>
    rcases g.setInternal_cases ref index value with same | ⟨old, new, _, _, set⟩
    · simp [after, same]
    · simp [after, set, setNode]
  | applyExports values =>
    refine idle _ ?_
    split <;> simp [tuneWhere, accept]
  | _ => exact edits.elim

end Call

end Graph

end Flowgraph
