import Flowgraph.Proofs.Graph.Change
import Flowgraph.Proofs.Tick.Outcome

namespace Flowgraph

/-- The values that an event node emits for a payload: one for each output. -/
def Template.emission (t : Template) (payload : List Value) : List Value :=
  payload.take t.outputs.length ++ Port.zeros (t.outputs.drop payload.length)

theorem Template.length_emission (t : Template) (payload : List Value) :
    (t.emission payload).length = t.outputs.length := by
  simp only [emission, Port.zeros, List.length_append, List.length_take, List.length_map,
    List.length_drop]
  omega

/-- The state of an event node by the last that it was told since it ran: due with that, or not
due. -/
def Node.Awaits (node : Node) : Option (List Value) → Prop
  | none => node.active = false
  | some payload => node.active = true ∧ node.payload = some (node.template.emission payload)

namespace Graph

variable {g : Graph} {scene : Scene} {id : NodeId} {node : Node}

/-- What a node is told by call after call, in their order. -/
def told (g : Graph) : List Call → NodeId → List (List Value)
  | [], _ => []
  | call :: rest, id =>
    ((g.node? id).bind (call.tells? g)).toList ++ told (call.after g) rest id

/-- Event nodes wait for just what they have been told, and slots to come have been told nothing. -/
structure Armed (g : Graph) (told : NodeId → List (List Value)) : Prop where
  fresh : ∀ id, g.nodes.size ≤ id.index → told id = []
  awaits : ∀ id node, g.node? id = some node → node.template.isEvent = true →
    node.Awaits (told id).getLast?

/-- A call adds to what nodes have been told, and an event node waits for the last of it. -/
theorem Armed.after {prior : NodeId → List (List Value)} (armed : g.Armed prior) {call : Call}
    (between : ¬ call.Ticks) :
    (call.after g).Armed fun id => prior id ++ ((g.node? id).bind (call.tells? g)).toList := by
  have untold (id : NodeId) (outside : g.nodes.size ≤ id.index) :
      prior id ++ ((g.node? id).bind (call.tells? g)).toList = [] := by
    cases live : g.node? id with
    | none => rw [armed.fresh id outside]; rfl
    | some node => exact absurd (index_lt_of_node? live) (by omega)
  refine ⟨fun id outside => untold id (Nat.le_trans (call.size_after g) outside), ?_⟩
  intro id node live event
  rcases call.change_after between g live with ⟨_, t, _, last, rfl⟩ | ⟨old, atId, change⟩
  · rw [untold id (Nat.le_of_eq last.symm)]
    rfl
  · have before := armed.awaits id old atId
    simp only [atId, Option.bind_some]
    generalize call.tells? g old = payload? at change
    cases change with
    | same => simpa using before event
    | tuned tuned =>
      obtain ⟨internals, rfl⟩ := tuned.eq
      simpa [Node.Awaits] using before event
    | due waits => exact absurd event (by simp [waits])
    | told payload =>
      rw [Option.toList_some, List.getLast?_concat]
      exact ⟨rfl, rfl⟩

/-- However many calls come between two ticks, a node is due just if it was told something, and what
it was told last is what it will emit. -/
theorem Armed.afterAll {prior : NodeId → List (List Value)} (armed : g.Armed prior)
    {calls : List Call} (between : ∀ call ∈ calls, ¬ call.Ticks) :
    (g.afterAll calls).Armed fun id => prior id ++ g.told calls id := by
  induction calls generalizing g prior with
  | nil => simpa [told, Graph.afterAll] using armed
  | cons call rest ih =>
    obtain ⟨first, others⟩ := List.forall_mem_cons.mp between
    have later := ih (armed.after first) others
    simpa only [told, Graph.afterAll, List.foldl_cons, List.append_assoc] using later

/-- A graph that is new, or on which a tick has just completed. -/
inductive Rested : Graph → Prop
  | empty (id : GraphId) (registry : Registry) (config : GraphConfig) :
      Rested (Graph.empty id registry config)
  | load {id : GraphId} {registry : Registry} {config : GraphConfig} {form : SavedGraph} :
      (Graph.load id registry config form).result = .ok () →
      Rested (Graph.load id registry config form).graph
  | tick {g : Graph} {scene : Scene} {report : TickReport} : g.Reachable →
      (g.tick scene).result = .ok report → Rested (g.tick scene).graph
  | step {g : Graph} {scene : Scene} {report : TickReport} : g.Reachable →
      (g.step scene).result = .ok report → Rested (g.step scene).graph

theorem Rested.reachable (rested : g.Rested) : g.Reachable := by
  cases rested with
  | empty => exact .empty _ _ _
  | load loaded => exact .load loaded
  | tick reach => exact reach.call (.tick _)
  | step reach => exact reach.call (.step _)

/-- A tick that completes leaves no node due. -/
theorem resting_of_tick (reach : g.Reachable) {report : TickReport}
    (done : (g.tick scene).result = .ok report) (live : (g.tick scene).graph.node? id = some node) :
    node.active = false := by
  obtain ⟨p, last⟩ := lastStage_of_tick reach.integrity done
  rw [last.nodes] at live
  obtain ⟨before, _, rfl⟩ := Option.map_eq_some_iff.mp live
  rfl

theorem Rested.resting (rested : g.Rested) (live : g.node? id = some node) :
    node.active = false := by
  cases rested with
  | empty => simp [node?, Graph.empty] at live
  | load =>
    rw [((fresh_load _ _ _ _).1 id node live).unused]
    rfl
  | tick reach done => exact resting_of_tick reach done live
  | @step g scene report reach done =>
    obtain ⟨result, graph, _⟩ := g.step_eq_tick scene
    rw [graph] at live
    rw [result] at done
    exact resting_of_tick (reach.call (.notifyTick scene.world.delta)) done live

/-- At rest no node has been told anything that it has not yet emitted. -/
theorem Rested.armed (rested : g.Rested) : g.Armed fun _ => [] :=
  ⟨fun _ _ => rfl, fun _ _ live _ => rested.resting live⟩

end Graph

end Flowgraph
