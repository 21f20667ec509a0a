import Flowgraph.Proofs.Builtin.Templates
import Flowgraph.Proofs.Graph.Change
import Flowgraph.Proofs.Tick.Overflow

namespace Flowgraph

open Propagation (Run Turn)

theorem validates_of_each {types : List PortType} {values : List Value}
    (length : values.length = types.length)
    (each : ∀ (index : Nat) type v, types[index]? = some type → values[index]? = some v →
      type.accepts v = true) : validates types values = true := by
  simp only [validates, length, beq_self_eq_true, Bool.true_and, List.all_eq_true]
  rintro ⟨v, type⟩ member
  obtain ⟨index, both⟩ := List.mem_iff_getElem?.mp member
  obtain ⟨atValue, atType⟩ := List.getElem?_zip_eq_some.mp both
  exact each index type v atType atValue

namespace Node

/-- Typed results, a sound template, and settings that fit. -/
structure Proper (node : Node) : Prop extends Typed node where
  sound : node.template.Sound
  settings : Fits node.template.internals node.internals

variable {node : Node}

theorem Proper.withActive (proper : node.Proper) (active : Bool) :
    ({ node with active } : Node).Proper :=
  { proper.toTyped.withActive active with sound := proper.sound, settings := proper.settings }

theorem Proper.run (proper : node.Proper) (inputs : List Value) (scene : Scene) :
    (node.run inputs scene).node.Proper := by
  have still := (node.still_run inputs scene).1
  have template : (node.run inputs scene).node.template = node.template :=
    (congrArg Node.template still :)
  have internals : (node.run inputs scene).node.internals = node.internals :=
    (congrArg Node.internals still :)
  have typed := (proper.toTyped.run proper.sound proper.settings inputs scene).1
  refine { typed with sound := ?_, settings := ?_ }
  · rw [template]
    exact proper.sound
  · rw [template, internals]
    exact proper.settings

/-- A tick can do nothing to a node that makes it improper: it runs it, or it says whether it is
due. -/
theorem lasting_proper : Lasting Proper :=
  ⟨fun _ inputs scene proper => proper.run inputs scene,
    fun _ active proper => proper.withActive active⟩

theorem Typed.tuned (typed : node.Typed) {new : Node} (tuned : node.Tuned new) : new.Typed := by
  obtain ⟨internals, rfl⟩ := tuned.eq
  exact ⟨typed.outputs, typed.payload⟩

end Node

/-- Nothing that a tick is handed crashes: no command to the entity, no reading of it and no lookup
of a key. -/
structure Scene.Reliable (scene : Scene) : Prop where
  entity : scene.entity.Reliable
  legible : scene.entity.Legible
  keys : scene.keys.Reliable

namespace Graph

variable {g h : Graph} {scene : Scene} {id : NodeId} {node : Node}

def Proper (g : Graph) : Prop := ∀ id node, g.node? id = some node → node.Proper

/-- The types of the two ports that an edge joins suit each other. -/
def Suited (g : Graph) (edge : Edge) : Prop :=
  ∀ source target output input, g.node? edge.source = some source →
    g.node? edge.target = some target → source.template.outputs[edge.output]? = some output →
    target.template.inputs[edge.input]? = some input → output.type.suits input.type = true

/-- A node that turns its inputs away, though all its wires suit it, has received a number that is
not finite. -/
theorem Proper.nonFinite (proper : g.Proper) (whole : g.Integrity) (live : g.node? id = some node)
    (suited : ∀ edgeId edge, g.edge? edgeId = some edge → edge.target = id → g.Suited edge)
    (invalid : validates (Port.types node.template.inputs) (g.resolveInputs id) = false) :
    ∃ (index : Nat) (port : Port) (v : Value), node.template.inputs[index]? = some port ∧
      port.type = .number ∧ (g.resolveInputs id)[index]? = some v ∧ v.NonFinite := by
  by_cases loose : ∃ (index : Nat) (port : Port) (v : Value),
      node.template.inputs[index]? = some port ∧ port.type = .number ∧
        (g.resolveInputs id)[index]? = some v ∧ v.NonFinite
  · exact loose
  -- otherwise each input is accepted
  have length : (g.resolveInputs id).length = (Port.types node.template.inputs).length := by
    simp only [resolveInputs, live, Port.types, List.length_map, List.length_zipIdx]
  have valid : validates (Port.types node.template.inputs) (g.resolveInputs id) = true := by
    refine validates_of_each length fun index type v atType atValue => ?_
    rw [Port.types, List.getElem?_map] at atType
    obtain ⟨port, atPort, rfl⟩ := Option.map_eq_some_iff.mp atType
    rcases whole.received live atPort with zero | ⟨edgeId, edge, source, w, atId, ends, onto,
      atSource, stored, received⟩
    · cases atValue.symm.trans zero
      exact port.type.accepts_zero
    · cases atValue.symm.trans received
      subst ends onto
      obtain ⟨length, fits⟩ := fits_iff.mp (proper _ _ atSource).outputs
      have bound := (List.getElem?_eq_some_iff.mp stored).1
      have atOutput := List.getElem?_eq_getElem (length ▸ bound)
      have held := fits edge.output _ _ atOutput stored
      have suits := suited edgeId edge atId rfl source node _ port atSource live atOutput atPort
      rcases PortType.accepts_of_suits suits held with accepted | ⟨number, infinite⟩
      · exact accepted
      · exact absurd ⟨_, port, _, atPort, number, received, infinite⟩ loose
  rw [valid] at invalid
  cases invalid

theorem Suited.of_skeleton {edge : Edge} (suited : g.Suited edge) (same : h.skeleton = g.skeleton) :
    h.Suited edge := by
  intro source target output input atSource atTarget atOutput atInput
  obtain ⟨source', atSource', _, sourceTemplate⟩ := node?_of_skeleton same atSource
  obtain ⟨target', atTarget', _, targetTemplate⟩ := node?_of_skeleton same atTarget
  rw [← sourceTemplate] at atOutput
  rw [← targetTemplate] at atInput
  exact suited source' target' output input atSource' atTarget' atOutput atInput

theorem Stage.proper {p : Propagation} (stage : g.Stage scene p) (whole : g.Integrity)
    (proper : g.Proper) : p.graph.Proper :=
  stage.forall_nodes whole Node.lasting_proper proper

/-- A run of a tick over a proper graph ends as the template is expected to. -/
theorem expected_of_run {p : Propagation} {keys : Keyboard} {world : World} {e : Execution}
    {rest : List NodeId} (run : Run keys world p e node rest) (proper : p.graph.Proper) :
    node.template.Expected e.inputs ⟨p.entity, keys, world⟩ e.outcome := by
  have own := proper _ _ run.live
  rw [run.outcome]
  exact (own.toTyped.run own.sound own.settings e.inputs ⟨p.entity, keys, world⟩).2

/-- A tick of a proper graph completes, since no evaluation of a sound template escapes. -/
theorem Proper.completes (proper : g.Proper) (whole : g.Integrity) (idle : g.phase = .idle)
    (scene : Scene) : ∃ report, (g.tick scene).result = .ok report := by
  rcases completes_or_cutShort whole idle scene with done | ⟨p, q, e, node, rest, stage, cut, _⟩
  · exact done
  · have expected := expected_of_run cut.toRun (stage.proper whole proper)
    rw [cut.escaped] at expected
    cases expected

theorem Proper.tick (proper : g.Proper) (whole : g.Integrity) (idle : g.phase = .idle)
    (scene : Scene) : (g.tick scene).graph.Proper ∧ (g.tick scene).graph.phase = .idle := by
  obtain ⟨report, done⟩ := proper.completes whole idle scene
  obtain ⟨p, last⟩ := lastStage_of_tick whole done
  exact ⟨forall_nodes_tick whole Node.lasting_proper proper, last.completed.phase⟩

/-- No run changes what the commands to the entity and the readings of it do. -/
theorem Stage.operations {p : Propagation} (stage : g.Stage scene p) (whole : g.Integrity) :
    p.entity.conduct = scene.entity.conduct ∧ p.entity.gauge = scene.entity.gauge := by
  refine Stage.induct whole ?_ ?_ stage
  · exact ⟨rfl, rfl⟩
  · intro p q e node rest woken _ _ turn before
    obtain ⟨conduct, gauge⟩ := node.operations_run e.inputs ⟨p.entity, scene.keys, scene.world⟩
    rw [turn.entity, conduct, gauge]
    exact before

/-- What a tick is handed stays reliable while it lasts. -/
theorem Stage.reliable {p : Propagation} (stage : g.Stage scene p) (whole : g.Integrity)
    (reliable : scene.Reliable) : Scene.Reliable ⟨p.entity, scene.keys, scene.world⟩ := by
  obtain ⟨conduct, gauge⟩ := stage.operations whole
  refine ⟨?_, ?_, reliable.keys⟩
  · rw [Entity.Reliable, conduct]
    exact reliable.entity
  · rw [Entity.Legible, gauge]
    exact reliable.legible

/-- What a fault of a run comes from: inputs were turned away, which with wires that suit the node
takes a number among them that is not finite, or the evaluation failed for a stated reason. -/
def Justifies (g : Graph) (e : Execution) (kind : FaultKind) : Prop :=
  ∃ node, g.node? e.node = some node ∧
    (kind = .typeMismatch ∧
        ((∀ edgeId edge, g.edge? edgeId = some edge → edge.target = e.node → g.Suited edge) →
          ∃ (index : Nat) (port : Port) (v : Value), node.template.inputs[index]? = some port ∧
            port.type = .number ∧ e.inputs[index]? = some v ∧ v.NonFinite) ∨
      ∃ reason, kind = .evaluationFailed (.stated reason) ∧
        node.template.Explains e.inputs reason)

/-- Each run that faults does so for one of the two causes, and the faults that are reported are
those of these runs, one for each and in their order. Only the cap may add one, at the end. -/
structure FaultsExplained (g : Graph) (scene : Scene) (report : TickReport) : Prop where
  runs : ∀ e ∈ g.trace scene, ∀ kind, e.outcome = .faulted kind → g.Justifies e kind
  reported : ∃ met,
    List.Forall₂ g.Reports ((g.trace scene).toList.filter (·.outcome.isFault)) met ∧
    (report.overflowed = false → report.faults = met) ∧
    (report.overflowed = true → ∃ id name, report.faults = met ++ [⟨id, name, .overflow g.cap⟩])

/-- A fault of a run over a proper graph is justified, where nothing crashes that the tick is
handed. -/
theorem Proper.justifies (proper : g.Proper) (whole : g.Integrity)
    (reliable : scene.Reliable) {e : Execution} (member : e ∈ g.trace scene)
    {kind : FaultKind} (faulted : e.outcome = .faulted kind) : g.Justifies e kind := by
  obtain ⟨i, entry⟩ := Array.mem_iff_getElem?.mp member
  obtain ⟨p, node, rest, stage, _, run⟩ := run_of_trace whole entry
  have running := stage.running whole
  obtain ⟨twin, atId, template⟩ := running.twin run.live
  have expected := expected_of_run run (stage.proper whole proper)
  refine ⟨twin, atId, ?_⟩
  rw [faulted] at expected
  rw [template]
  cases expected with
  | mismatch invalid =>
    refine Or.inl ⟨rfl, fun suited => ?_⟩
    rw [run.inputs] at invalid ⊢
    refine (stage.proper whole proper).nonFinite (running.integrity whole) run.live
      (fun edgeId edge atEdge ends => ?_) invalid
    rw [running.edge?] at atEdge
    exact (suited edgeId edge atEdge ends).of_skeleton (skeleton_eq_of_program running.program)
  | failed explained => exact Or.inr ⟨_, rfl, explained⟩
  | unseen crashed =>
    obtain ⟨pressed, seen⟩ := reliable.keys _
    cases seen.symm.trans crashed
  | unread crashed =>
    obtain ⟨v, read⟩ := (stage.reliable whole reliable).legible p.entity.toBody
    cases read.symm.trans crashed
  | crashed crashed =>
    cases ((stage.reliable whole reliable).entity.performAll _).symm.trans crashed

theorem Proper.faultsExplained (proper : g.Proper) (whole : g.Integrity)
    (reliable : scene.Reliable) {report : TickReport}
    (done : (g.tick scene).result = .ok report) : g.FaultsExplained scene report := by
  obtain ⟨p, last⟩ := lastStage_of_tick whole done
  have faults : p.faults.toList = (g.trace scene).toList.filterMap g.faultOf? := by
    rw [last.stage.faults whole, last.trace]
  refine ⟨fun e member kind => proper.justifies whole reliable member, p.faults.toList, ?_,
    last.faults_of_settled, fun overflowed => ?_⟩
  · rw [faults]
    exact forall₂_reports fun e member =>
      (admits_of_trace whole (Array.mem_toList_iff.mp member)).imp fun node admitted => admitted.1
  · obtain ⟨id, _, node, _, _, added⟩ := last.faults_of_capped whole overflowed
    exact ⟨id, node.template.name, added⟩

/-- All calls but notifications of which the caller chooses the values. -/
def Call.Standard : Call → Prop
  | .notify .. | .notifyCategory .. => False
  | _ => True

/-- A graph over the built-in templates to which standard calls lead from an empty or a loaded
one. -/
inductive Hosted : Graph → Prop
  | empty (id : GraphId) (config : GraphConfig) : Hosted (Graph.empty id .builtin config)
  | load {id : GraphId} {config : GraphConfig} {form : SavedGraph} :
      (Graph.load id .builtin config form).result = .ok () →
      Hosted (Graph.load id .builtin config form).graph
  | call {g : Graph} : Hosted g → (call : Call) → call.Standard → Hosted (call.after g)

theorem Hosted.reachable (hosted : g.Hosted) : g.Reachable := by
  induction hosted with
  | empty id config => exact .empty id .builtin config
  | load loaded => exact .load loaded
  | call _ call _ ih => exact ih.call call

theorem Hosted.registry (hosted : g.Hosted) : g.registry = .builtin := by
  induction hosted with
  | empty => rfl
  | load => exact (congrArg Graph.registry (fresh_load _ _ _ _).2 :)
  | @call g _ call _ ih => exact (call.registry_after g).trans ih

/-- Templates and settings need no account of what the host did. -/
theorem Hosted.proper (hosted : g.Hosted) (typed : ∀ id node, g.node? id = some node → node.Typed) :
    g.Proper := by
  intro id node live
  have registered := hosted.reachable.registered live
  rw [hosted.registry] at registered
  have sound := Registry.sound_builtin registered
  obtain ⟨_, settled⟩ := hosted.reachable.known live
  exact { typed id node live with sound, settings := settled.fits sound.defaults }

/-- What the host tells an event node by itself is one of the two payloads. -/
theorem Call.notifies_of_tells {call : Call} (standard : call.Standard) {payload : List Value}
    (told : call.tells? g node = some payload) :
    node.template.kind = .event ∧ Builtin.Notifies node.template.name payload := by
  obtain ⟨n, notifies, reached⟩ := Option.bind_eq_some_iff.mp told
  split at reached
  · rename_i holds
    cases reached
    simp only [Notification.matches, Bool.and_eq_true, Template.isEvent, beq_iff_eq] at holds
    refine ⟨holds.2.1, ?_⟩
    cases call with
    | notifyTick dt =>
      cases notifies
      exact Or.inl ⟨eq_of_beq holds.2.2, dt, rfl⟩
    | notifyCollision normal other =>
      cases notifies
      exact Or.inr ⟨eq_of_beq holds.2.2, normal, other, rfl⟩
    | notify | notifyCategory => exact standard.elim
    | _ => cases notifies
  · cases reached

/-- Between ticks nothing puts an ill-typed value into a proper graph: new nodes have zeros, and
what the host tells event nodes fits them. -/
theorem Proper.between (proper : g.Proper) {call : Call} (between : ¬ call.Ticks)
    (standard : call.Standard) :
    ∀ id node, (call.after g).node? id = some node → node.Typed := by
  intro id node live
  rcases call.change_after between g live with ⟨name, t, _, _, rfl⟩ | ⟨old, atId, change⟩
  · exact Node.typed_stamp id t
  · have own := proper id old atId
    generalize told : call.tells? g old = payload? at change
    cases change with
    | same => exact own.toTyped
    | tuned tuned => exact own.toTyped.tuned tuned
    | due => exact own.toTyped.withActive true
    | told payload event =>
      obtain ⟨kind, notifies⟩ := Call.notifies_of_tells standard told
      exact own.toTyped.arm (own.sound.event kind payload notifies)

/-- The graph of a host is always idle, and what its nodes have stored is typed. -/
theorem Hosted.typed (hosted : g.Hosted) :
    g.phase = .idle ∧ ∀ id node, g.node? id = some node → node.Typed := by
  induction hosted with
  | empty id config =>
    refine ⟨rfl, fun other node live => ?_⟩
    simp [node?, Graph.empty] at live
  | load =>
    obtain ⟨fresh, around⟩ := fresh_load _ _ _ _
    refine ⟨(congrArg Graph.phase around :), fun id node live => ?_⟩
    rw [(fresh id node live).unused]
    exact ⟨fits_zeros _, fun _ armed => by cases armed⟩
  | @call g hosted call standard ih =>
    obtain ⟨idle, typed⟩ := ih
    have proper := hosted.proper typed
    have tickTyped {h : Graph} (hosted : h.Hosted) (proper : h.Proper) (idle : h.phase = .idle)
        (scene : Scene) : (h.tick scene).graph.phase = .idle ∧
          ∀ id node, (h.tick scene).graph.node? id = some node → node.Typed := by
      obtain ⟨after, phase⟩ := proper.tick hosted.reachable.integrity idle scene
      exact ⟨phase, fun id node live => (after id node live).toTyped⟩
    by_cases ticks : call.Ticks
    · cases call with
      | tick scene => exact tickTyped hosted proper idle scene
      | step scene =>
        let clock : Call := .notifyTick scene.world.delta
        have told : (clock.after g).Hosted := hosted.call clock trivial
        have toldTyped : ∀ id node, (clock.after g).node? id = some node → node.Typed :=
          proper.between (fun ticks => ticks) trivial
        have toldIdle : (clock.after g).phase = .idle :=
          (clock.phase_after (fun ticks => ticks) g).trans idle
        rw [Call.after, g.step_of_idle scene idle]
        exact tickTyped told (told.proper toldTyped) toldIdle scene
      | _ => exact ticks.elim
    · exact ⟨(call.phase_after ticks g).trans idle, proper.between ticks standard⟩

/-- Over the built-in templates, whatever a host does and whatever comes in: a stored result is one
that its port accepts, or a number that is not finite; and where nothing crashes that a tick is
handed, every tick and every step completes, with no faults but those of `FaultsExplained`. -/
theorem builtin_sound (hosted : g.Hosted) :
    (∀ id node, g.node? id = some node →
      node.outputs.length = node.template.outputs.length ∧
      ∀ (index : Nat) port v, node.template.outputs[index]? = some port →
        node.outputs[index]? = some v →
        port.type.accepts v = true ∨ port.type = .number ∧ v.NonFinite) ∧
    ∀ scene : Scene, scene.Reliable →
      (∃ report, (g.tick scene).result = .ok report ∧ g.FaultsExplained scene report) ∧
      ∃ report, (g.step scene).result = .ok report ∧
        (g.notifyTick scene.world.delta).graph.FaultsExplained scene report := by
  have explained {h : Graph} (hosted : h.Hosted) {scene : Scene}
      (reliable : scene.Reliable) : ∃ report,
      (h.tick scene).result = .ok report ∧ h.FaultsExplained scene report := by
    obtain ⟨idle, typed⟩ := hosted.typed
    have proper := hosted.proper typed
    have whole := hosted.reachable.integrity
    obtain ⟨report, done⟩ := proper.completes whole idle scene
    exact ⟨report, done, proper.faultsExplained whole reliable done⟩
  refine ⟨fun id node live => ?_, fun scene reliable => ⟨explained hosted reliable, ?_⟩⟩
  · obtain ⟨length, fits⟩ := fits_iff.mp (hosted.typed.2 id node live).outputs
    exact ⟨length, fun index port v atPort atValue =>
      PortType.accepts_of_stores (fits index port v atPort atValue)⟩
  · have told := hosted.call (.notifyTick scene.world.delta) trivial
    rw [g.step_of_idle scene hosted.typed.1]
    exact explained told reliable

theorem Hosted.afterAll (hosted : g.Hosted) {calls : List Call}
    (standard : ∀ call ∈ calls, call.Standard) : (g.afterAll calls).Hosted := by
  induction calls generalizing g with
  | nil => exact hosted
  | cons call rest ih =>
    obtain ⟨first, others⟩ := List.forall_mem_cons.mp standard
    exact ih (hosted.call call first) others

/-- A vector one part of which is tuned to infinity, and a velocity that is asked of nothing. -/
def beyond : Graph :=
  let ref (slot : Nat) : NodeRef := ⟨⟨0⟩, ⟨slot⟩⟩
  (empty ⟨0⟩ .builtin {}).afterAll
    [.addNode "ExportFloat", .addNode "Vec2", .addNode "GetEntityVelocity",
      .addEdge (ref 0) 0 (ref 1) 0, .setInternal (ref 0) 1 (.float (.ofBits 0x7FF0000000000000)),
      .activate (ref 0), .activate (ref 2)]

theorem builtin_sound_beyond :
    let faults : List NodeFault :=
      [⟨⟨2⟩, "GetEntityVelocity", .evaluationFailed (.stated "cannot resolve entity null")⟩,
        ⟨⟨1⟩, "Vec2", .typeMismatch⟩]
    beyond.Hosted ∧ quiet.Reliable ∧
      (beyond.tick quiet).result.toOption.map (·.faults) = some faults ∧
      List.Forall₂ beyond.Reports
        ((beyond.trace quiet).toList.filter (·.outcome.isFault)) faults ∧
      (∀ e ∈ beyond.trace quiet, ∀ kind, e.outcome = .faulted kind →
        beyond.Justifies e kind) ∧
      (beyond.tick quiet).graph.Hosted ∧
      ∀ id node, (beyond.tick quiet).graph.node? id = some node →
        node.outputs.length = node.template.outputs.length := by
  intro faults
  have hosted : beyond.Hosted := by
    refine (Hosted.empty _ _).afterAll ?_
    simp only [List.forall_mem_cons, Call.Standard, true_and]
    exact fun _ member => absurd member List.not_mem_nil
  have reliable : quiet.Reliable :=
    ⟨Entity.reliable_atRest _ _, Entity.legible_atRest _ _, fun _ => ⟨false, rfl⟩⟩
  have ended : (beyond.tick quiet).result.toOption.map (fun report =>
      (report.faults, report.overflowed)) = some (faults, false) := by decide +kernel
  obtain ⟨_, ticks⟩ := builtin_sound hosted
  obtain ⟨⟨report, done, explained⟩, _⟩ := ticks quiet reliable
  rw [done] at ended
  obtain ⟨same, below⟩ := Prod.mk.inj (Option.some.inj ended)
  obtain ⟨met, reports, listed, _⟩ := explained.reported
  have met_eq : faults = met := same.symm.trans (listed below)
  have ticked : (beyond.tick quiet).graph.Hosted := hosted.call (.tick quiet) trivial
  refine ⟨hosted, reliable, ?_, met_eq ▸ reports, explained.runs, ticked,
    fun id node live => ((builtin_sound ticked).1 id node live).1⟩
  rw [done, ← same]
  rfl

end Graph

end Flowgraph
