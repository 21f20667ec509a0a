import Flowgraph.Proofs.Graph.Inputs
import Flowgraph.Proofs.Tick.Activation

namespace Flowgraph

open Propagation (Run Turn)

variable {g : Graph} {scene : Scene} {p q : Propagation} {e : Execution} {node : Node}
  {rest woken : List NodeId}

/-- A node stores nothing at or after a position. -/
def Silent (runs : Array Execution) (n : Nat) (id : NodeId) : Prop :=
  ∀ (j : Nat) e activations, n ≤ j → runs[j]? = some e → e.node = id →
    e.outcome ≠ .ran activations

theorem Silent.of_push {runs : Array Execution} {n : Nat} {id : NodeId}
    (silent : Silent (runs.push e) n id) : Silent runs n id :=
  fun j f activations after entry =>
    silent j f activations after (getElem?_push_of_some entry)

theorem Silent.mono {runs : Array Execution} {m n : Nat} {id : NodeId} (silent : Silent runs m id)
    (bound : m ≤ n) : Silent runs n id :=
  fun j f activations after => silent j f activations (Nat.le_trans bound after)

theorem Silent.last {runs : Array Execution} {n : Nat} (silent : Silent (runs.push e) n e.node)
    (bound : n ≤ runs.size) (activations : List Bool) : e.outcome ≠ .ran activations :=
  silent runs.size e activations bound Array.getElem?_push_size rfl

/-- Whether a node stores nothing in a tick or there is a last time that it does. -/
theorem silent_or_last (runs : Array Execution) (id : NodeId) :
    Silent runs 0 id ∨ ∃ (j : Nat) (e : Execution) (activations : List Bool),
      runs[j]? = some e ∧ e.node = id ∧ e.outcome = .ran activations ∧
        Silent runs (j + 1) id := by
  have beyond : Silent runs runs.size id := by
    intro j e activations after entry
    have bound := (Array.getElem?_eq_some_iff.mp entry).1
    omega
  -- from the end of the trace towards its beginning, up to the first position that stores
  generalize runs.size = n at beyond
  induction n with
  | zero => exact Or.inl beyond
  | succ n ih =>
    by_cases earlier : Silent runs n id
    · exact ih earlier
    · simp only [Silent, ne_eq, Classical.not_forall, Classical.not_not, exists_prop] at earlier
      obtain ⟨j, e, activations, after, entry, own, stored⟩ := earlier
      have notLater : ¬ n < j := fun later => beyond j e activations later entry own stored
      have here : j = n := by omega
      subst here
      exact Or.inr ⟨j, e, activations, entry, own, stored, beyond⟩

/-- A node has stored nothing in a tick, or the results that it stored last activated an output. -/
def Announced (runs : Array Execution) (id : NodeId) (output : Nat) : Prop :=
  Silent runs 0 id ∨ ∃ (j : Nat) (e : Execution) (activations : List Bool),
    runs[j]? = some e ∧ e.node = id ∧ e.outcome = .ran activations ∧
      Silent runs (j + 1) id ∧ activations[output]? = some true

namespace Propagation

/-- After its run a node has stored what the run left it with. -/
theorem Turn.storedAt_self {keys : Keyboard} {world : World}
    (turn : Turn keys world p q e node rest woken) :
    q.graph.storedAt e.node = some (node.run e.inputs ⟨p.entity, keys, world⟩).node.outputs := by
  unfold Graph.storedAt
  rw [turn.nodes, if_pos rfl]
  simp only [Option.map_some]
  split <;> rfl

theorem Turn.storedAt_other {keys : Keyboard} {world : World} {id : NodeId}
    (turn : Turn keys world p q e node rest woken) (other : id ≠ e.node) :
    q.graph.storedAt id = p.graph.storedAt id := by
  unfold Graph.storedAt
  rw [turn.nodes, if_neg other, Option.map_map]
  congr 1
  funext node
  simp only [Function.comp_apply]
  split <;> rfl

/-- A turn changes what is stored only at its node, and only if the run stored. -/
theorem Turn.storedAt {keys : Keyboard} {world : World} {id : NodeId}
    (turn : Turn keys world p q e node rest woken)
    (silent : id = e.node → ∀ activations, e.outcome ≠ .ran activations) :
    q.graph.storedAt id = p.graph.storedAt id := by
  by_cases same : id = e.node
  · subst same
    have kept := node.outputs_run e.inputs ⟨p.entity, keys, world⟩
      (turn.outcome ▸ silent rfl)
    rw [turn.storedAt_self, kept, Graph.storedAt, turn.live]
    rfl
  · exact turn.storedAt_other same

end Propagation

namespace Graph

/-- What a node received on an input is what it would receive now, if the source of its wire has
stored nothing since. -/
theorem Stage.received (stage : g.Stage scene p) (whole : g.Integrity) {n input : Nat}
    (entry : p.trace[n]? = some e)
    (silent : ∀ edgeId edge, g.edge? edgeId = some edge → edge.target = e.node →
      edge.input = input → Silent p.trace n edge.source) :
    e.inputs[input]? = (p.graph.resolveInputs e.node)[input]? := by
  revert entry silent
  refine Stage.induct whole ?_ ?_ stage
  · intro entry
    simp [Propagation.start] at entry
  · intro p q f node rest woken before running turn ih entry silent
    rw [turn.trace] at entry silent
    have bound := (Array.getElem?_eq_some_iff.mp entry).1
    rw [Array.size_push] at bound
    -- this turn stores nothing at the other end of the wire, so the input is as it was
    have now : (q.graph.resolveInputs e.node)[input]? = (p.graph.resolveInputs e.node)[input]? := by
      apply (running.integrity whole).resolveInputs_congr turn.program
      intro edgeId edge live ends port
      apply turn.storedAt
      intro same
      rw [running.edge?] at live
      exact (same ▸ silent edgeId edge live ends port).last (by omega)
    rw [now]
    rcases getElem?_push_cases entry with ⟨_, rfl⟩ | ⟨_, old⟩
    · rw [turn.inputs]
    · exact ih old fun edgeId edge live ends port =>
        (silent edgeId edge live ends port).of_push

/-- What is stored at a node is what a run of it left there, if it has stored nothing since. -/
theorem Stage.kept (stage : g.Stage scene p) (whole : g.Integrity) {n : Nat}
    (entry : p.trace[n]? = some e) (silent : Silent p.trace (n + 1) e.node) :
    ∃ before node rest, g.Stage scene before ∧ before.trace.size = n ∧
      Run scene.keys scene.world before e node rest ∧
      p.graph.storedAt e.node =
        some (node.run e.inputs ⟨before.entity, scene.keys, scene.world⟩).node.outputs := by
  revert entry silent
  refine Stage.induct whole ?_ ?_ stage
  · intro entry
    simp [Propagation.start] at entry
  · intro p q f node rest woken before _ turn ih entry silent
    rw [turn.trace] at entry silent
    rcases getElem?_push_cases entry with ⟨last, rfl⟩ | ⟨earlier, old⟩
    · exact ⟨p, node, rest, before, last.symm, turn.toRun, turn.storedAt_self⟩
    · have now : q.graph.storedAt e.node = p.graph.storedAt e.node :=
        turn.storedAt fun same => (same ▸ silent).last earlier
      rw [now]
      exact ih old silent.of_push

/-- What a node with an evaluator has stored is what the evaluator gave in a run that stored, if the
node has stored nothing since. -/
theorem Stage.evaluated (stage : g.Stage scene p) (whole : g.Integrity) {n : Nat}
    (entry : p.trace[n]? = some e) (silent : Silent p.trace (n + 1) e.node)
    (live : p.graph.node? e.node = some node)
    (evaluates : node.template.kind = .plain ∨ node.template.kind = .internal)
    {activations : List Bool} (ran : e.outcome = .ran activations) :
    ∃ before evaluator results, g.Stage scene before ∧ before.trace.size = n ∧
      node.template.evaluator = some evaluator ∧
      (evaluator e.inputs (node.context ⟨before.entity, scene.keys, scene.world⟩)).outcome =
        .results results ∧
      node.outputs = results.map (·.value) := by
  obtain ⟨before, twin, rest, earlier, size, run, stored⟩ := stage.kept whole entry silent
  have program := (stage.running whole).program.trans (earlier.running whole).program.symm
  have still : twin.still = node.still := still_of_program program live run.live
  have template : twin.template = node.template := (congrArg Node.template still :)
  obtain ⟨results, produced, _, _, outputs⟩ := twin.run_ran _ _ (run.outcome.symm.trans ran)
  obtain ⟨evaluator, same, outcome⟩ :=
    Node.evaluated_of_produces (template.symm ▸ evaluates) produced
  rw [Graph.storedAt, live, Option.map_some, outputs] at stored
  rw [Node.context_of_still still] at outcome
  exact ⟨before, evaluator, results, earlier, size, template ▸ same, outcome,
    Option.some.inj stored⟩

end Graph

/-- With nothing due any more, the source of a wire stores nothing at or after the last run of the
target, if its last results activated the wire: they would have made the target run again. -/
theorem Accounted.silent (accounted : Accounted g p) (settled : p.pending = []) {edgeId : EdgeId}
    {edge : Edge} (live : g.edge? edgeId = some edge) (notEvent : ¬ g.IsEvent edge.target)
    {n : Nat} (last : ∀ r f, n < r → p.trace[r]? = some f → f.node ≠ edge.target)
    (announced : Announced p.trace edge.source edge.output) : Silent p.trace n edge.source := by
  rcases announced with never | ⟨j, f, activations, entry, own, stored, since, activates⟩
  · exact never.mono (Nat.zero_le n)
  by_cases before : j < n
  · exact since.mono before
  · have reached : f.Activates g edge.target :=
      ⟨activations, edgeId, edge, stored, live, own.symm, activates, rfl⟩
    rcases accounted.answered j f edge.target entry reached notEvent with
      waits | ⟨r, h, after, again, same⟩
    · simp [settled] at waits
    · exact absurd same (last r h (by omega) again)

namespace Graph

variable {report : TickReport}

/-- Where every result activates, so does every output that is wired. -/
theorem Stage.announced (stage : g.Stage scene p) (whole : g.Integrity)
    (eager : ∀ (j : Nat) f activations, p.trace[j]? = some f → f.outcome = .ran activations →
      ∀ activates ∈ activations, activates = true)
    {edgeId : EdgeId} {edge : Edge} (live : g.edge? edgeId = some edge) :
    Announced p.trace edge.source edge.output := by
  rcases silent_or_last p.trace edge.source with
    never | ⟨j, f, activations, entry, own, stored, since⟩
  · exact Or.inl never
  refine Or.inr ⟨j, f, activations, entry, own, stored, since, ?_⟩
  obtain ⟨before, node, rest, earlier, _, run⟩ := stage.run_of_trace whole entry
  obtain ⟨source, _, atSource, _, bound, _⟩ := whole.ends edgeId edge live
  obtain ⟨twin, atTwin, template⟩ := (earlier.running whole).twin run.live
  rw [own] at atTwin
  cases atTwin.symm.trans atSource
  obtain ⟨results, _, fits, flags, _⟩ := node.run_ran _ _ (run.outcome.symm.trans stored)
  have inside : edge.output < activations.length := by
    rw [flags, List.length_map, fits, ← template]
    exact bound
  rw [List.getElem?_eq_getElem inside]
  exact congrArg some (eager j f activations entry stored _ (List.getElem_mem inside))

/-- In a tick that completes below its cap, take the last run of a node that waits for no
notification. On each input it received the value that the input has after the tick, unless the
source of its wire has last stored results that did not activate the wired output. So where every
result activates, what a node with an evaluator has stored in that run are the results of its
evaluator on the inputs that it has after the tick. -/
theorem no_stale_inputs (reach : g.Reachable) (idle : g.phase = .idle)
    (done : (g.tick scene).result = .ok report) (below : report.overflowed = false) {id : NodeId}
    (live : (g.tick scene).graph.node? id = some node) (notEvent : node.template.isEvent = false)
    {n : Nat} (entry : (g.trace scene)[n]? = some e) (own : e.node = id)
    (last : ∀ (r : Nat) f, n < r → (g.trace scene)[r]? = some f → f.node ≠ id) :
    (∀ input < node.template.inputs.length,
      (∀ edgeId edge, g.edge? edgeId = some edge → edge.target = id → edge.input = input →
        Announced (g.trace scene) edge.source edge.output) →
      ∃ value, e.inputs[input]? = some value ∧
        ((g.tick scene).graph.resolveInputs id)[input]? = some value) ∧
    ((∀ (j : Nat) f activations, (g.trace scene)[j]? = some f → f.outcome = .ran activations →
        ∀ activates ∈ activations, activates = true) →
      node.template.kind = .plain ∨ node.template.kind = .internal →
      ∀ activations, e.outcome = .ran activations →
      ∃ p evaluator results, g.Stage scene p ∧ p.trace.size = n ∧
        node.template.evaluator = some evaluator ∧
        (evaluator ((g.tick scene).graph.resolveInputs id)
          (node.context ⟨p.entity, scene.keys, scene.world⟩)).outcome = .results results ∧
        node.outputs = results.map (·.value)) := by
  have whole := reach.integrity
  obtain ⟨p, stage, empty, trace, ticked⟩ := settled_of_tick idle done below
  rw [trace] at entry last ⊢
  rw [ticked] at live ⊢
  subst own
  have running := stage.running whole
  have atNode : p.graph.node? e.node = some node := live
  have wireless : ¬ g.IsEvent e.node := by
    rw [← running.isEvent_iff]
    rintro ⟨twin, atTwin, event⟩
    cases atTwin.symm.trans atNode
    simp [notEvent] at event
  have silent {edgeId : EdgeId} {edge : Edge} (wire : g.edge? edgeId = some edge)
      (ends : edge.target = e.node) (announced : Announced p.trace edge.source edge.output) :
      Silent p.trace n edge.source :=
    (stage.accounted whole).silent empty wire (ends ▸ wireless) (ends ▸ last) announced
  refine ⟨fun input bound announced => ?_, fun eager evaluates activations ran => ?_⟩
  · have same := stage.received whole entry fun edgeId edge wire ends port =>
      silent wire ends (announced edgeId edge wire ends port)
    have read : (p.graph.resolveInputs e.node)[input]? = _ := getElem?_resolveInputs atNode
    rw [List.getElem?_eq_getElem bound, Option.map_some] at read
    exact ⟨_, same.trans read, read⟩
  · have fresh : e.inputs = p.graph.resolveInputs e.node :=
      List.ext_getElem? fun input => stage.received whole entry fun edgeId edge wire ends _ =>
        silent wire ends (stage.announced whole eager wire)
    have rests : Silent p.trace (n + 1) e.node := fun j f _ after found same =>
      absurd same (last j f after found)
    obtain ⟨before, evaluator, results, earlier, size, same, outcome, outputs⟩ :=
      stage.evaluated whole entry rests atNode evaluates ran
    exact ⟨before, evaluator, results, earlier, size, same, fresh ▸ outcome, outputs⟩

theorem no_stale_inputs_detour :
    detour.Reachable ∧ detour.phase = .idle ∧ (detour.tick quiet).result = .ok ⟨4, [], false⟩ ∧
      (detour.trace quiet)[3]? = some ⟨⟨3⟩, [.bool true, .bool true], .ran [true]⟩ ∧
      ∃ node evaluator results, (detour.tick quiet).graph.node? ⟨3⟩ = some node ∧
        node.template.evaluator = some evaluator ∧ node.outputs = results.map (·.value) ∧
        ∃ context, (evaluator ((detour.tick quiet).graph.resolveInputs ⟨3⟩) context).outcome =
          .results results := by
  have entry : (detour.trace quiet)[3]? =
      some ⟨⟨3⟩, [.bool true, .bool true], .ran [true]⟩ := by
    rw [trace_detour]
    rfl
  have last : ∀ (r : Nat) f, 3 < r → (detour.trace quiet)[r]? = some f → f.node ≠ ⟨3⟩ := by
    intro r f after found
    have bound := (Array.getElem?_eq_some_iff.mp found).1
    simp only [trace_detour, List.size_toArray, List.length_cons, List.length_nil] at bound
    omega
  have eager : ∀ (j : Nat) f activations, (detour.trace quiet)[j]? = some f →
      f.outcome = .ran activations → ∀ activates ∈ activations, activates = true := by
    intro j f activations found ran activates flag
    have member := Array.mem_of_getElem? found
    simp only [trace_detour, List.mem_toArray, List.mem_cons, List.not_mem_nil, or_false] at member
    rcases member with rfl | rfl | rfl | rfl <;> cases ran <;> simpa using flag
  have done : (detour.tick quiet).result = .ok ⟨4, [], false⟩ := rfl
  obtain ⟨_, evaluated⟩ := no_stale_inputs reachable_detour rfl done rfl rfl rfl entry rfl last
  obtain ⟨p, evaluator, results, _, _, same, outcome, outputs⟩ :=
    evaluated eager (Or.inl rfl) [true] rfl
  exact ⟨reachable_detour, rfl, done, entry, _, evaluator, results, rfl, same, outputs, _, outcome⟩

end Graph

end Flowgraph
