import Flowgraph.Proofs.Graph.Frame

namespace Flowgraph

namespace Graph

theorem program_setActive (g : Graph) (id : NodeId) (active : Bool) :
    (g.setActive id active).program = g.program :=
  strip_setActive (fun _ _ => rfl) g id active

theorem program_awaken (g : Graph) (pending targets : List NodeId) :
    (g.awaken pending targets).1.program = g.program := by
  induction targets generalizing g pending with
  | nil => rfl
  | cons target rest ih =>
    unfold awaken
    split
    · rw [ih, program_setActive]
    · exact ih g pending

theorem program_drain (g : Graph) (ids : List NodeId) :
    (ids.foldl (fun g id => g.setActive id false) g).program = g.program := by
  induction ids generalizing g with
  | nil => rfl
  | cons id rest ih => exact (ih _).trans (g.program_setActive id false)

end Graph

namespace Propagation

variable (p : Propagation) (keys : Keyboard) (world : World)

/-- A run changes what is stored and what is due, and so keeps the program. -/
theorem program_execute (id : NodeId) :
    (p.execute keys world id).1.graph.program = p.graph.program := by
  unfold execute
  cases live : p.graph.node? id with
  | none => rfl
  | some node =>
    have rested (run : NodeRun) (still : run.node.still = node.still) :
        (p.graph.setNode id { run.node with active := false }).program = p.graph.program :=
      Graph.strip_setNode live still
    have still := (node.still_run (p.graph.resolveInputs id) ⟨p.entity, keys, world⟩).1
    simp only
    split
    · exact (Graph.program_awaken _ _ _).trans (rested _ still)
    · exact rested _ still
    · exact rested _ still
    · rfl

variable {p keys world} in
theorem advance_nil {budget : Nat} (empty : p.pending = []) :
    p.advance keys world budget = (p, .settled) := by
  rw [advance.eq_def]
  simp only [empty]

variable {p keys world} in
theorem advance_zero {id : NodeId} {rest : List NodeId} (queue : p.pending = id :: rest) :
    p.advance keys world 0 = (p, .capped) := by
  rw [advance.eq_def]
  simp only [queue]

variable {p keys world} in
/-- A run that does not escape is followed by the others, with one run less to go. -/
theorem advance_succ {id : NodeId} {rest : List NodeId} {budget : Nat}
    (queue : p.pending = id :: rest) :
    p.advance keys world (budget + 1) =
      let ran := { p with pending := rest }.execute keys world id
      if ran.2 then (ran.1, .escaped) else ran.1.advance keys world budget := by
  rw [advance.eq_def]
  simp only [queue]

theorem program_advance (budget : Nat) :
    (p.advance keys world budget).1.graph.program = p.graph.program := by
  induction budget generalizing p with
  | zero =>
    cases queue : p.pending with
    | nil => rw [advance_nil queue]
    | cons id rest => rw [advance_zero queue]
  | succ budget ih =>
    cases queue : p.pending with
    | nil => rw [advance_nil queue]
    | cons id rest =>
      have kept := program_execute { p with pending := rest } keys world id
      rw [advance_succ queue]
      simp only
      split
      · exact kept
      · exact (ih _).trans kept

/-- Runs are only added to the trace. -/
theorem prefix_advance (budget : Nat) :
    p.trace.toList <+: (p.advance keys world budget).1.trace.toList := by
  induction budget generalizing p with
  | zero =>
    cases queue : p.pending with
    | nil => simp only [advance_nil queue, List.prefix_rfl]
    | cons id rest => simp only [advance_zero queue, List.prefix_rfl]
  | succ budget ih =>
    cases queue : p.pending with
    | nil => simp only [advance_nil queue, List.prefix_rfl]
    | cons id rest =>
      have recorded : p.trace.toList <+:
          ({ p with pending := rest }.execute keys world id).1.trace.toList := by
        unfold execute
        split
        · exact List.prefix_rfl
        · simp only
          split <;> simp [fault]
      rw [advance_succ queue]
      simp only
      split
      · exact recorded
      · exact recorded.trans (ih _)

theorem program_abandon (cap : Nat) : (p.abandon cap).graph.program = p.graph.program := by
  unfold abandon
  simp only
  rw [Graph.program_drain]
  split
  · rfl
  · split <;> rfl

end Propagation

namespace Graph

variable (g : Graph) (scene : Scene)

theorem program_propagate : (g.propagate scene).1.graph.program = g.program :=
  Propagation.program_advance _ _ _ _

/-- A tick edits nothing: it may settle, meet its cap, be cut short or be refused. -/
theorem program_tick : (g.tick scene).graph.program = g.program := by
  have kept := g.program_propagate scene
  unfold tick
  split
  · split
    all_goals
      rename_i p ending
      rw [ending] at kept
    · exact kept
    · exact (p.program_abandon g.cap).trans kept
    · exact kept
  · rfl

/-- A graph in the middle of a tick refuses another one and leaves the entity alone. -/
theorem tick_of_busy (busy : g.phase ≠ .idle) :
    g.tick scene =
      { result := .error (.refused .propagating), graph := g, entity := scene.entity,
        notices := [.editWhilePropagating] } := by
  have busy : ¬ g.isIdle = true := by simpa [isIdle] using busy
  exact if_neg busy

/-- A step of an idle graph is a tick of the graph that has been told of the clock. -/
theorem step_of_idle (idle : g.phase = .idle) :
    g.step scene =
      let told := g.notifyTick scene.world.delta
      let reply := told.graph.tick scene
      { reply with notices := told.notices ++ reply.notices } := by
  have idle : g.isIdle = true := by simp [isIdle, idle]
  have told : (g.notifyTick scene.world.delta).result = .ok _ :=
    congrArg Reply.result (if_pos idle)
  unfold step
  simp only [told]

theorem step_of_busy (busy : g.phase ≠ .idle) :
    g.step scene =
      { result := .error (.refused .propagating), graph := g, entity := scene.entity,
        notices := [.editWhilePropagating] } := by
  have busy : ¬ g.isIdle = true := by simpa [isIdle] using busy
  have told : g.notifyTick scene.world.delta = _ := if_neg busy
  unfold step
  simp only [told]

/-- But for its notices a step is a tick of the graph that has been told of the clock. -/
theorem step_eq_tick :
    let told := (g.notifyTick scene.world.delta).graph
    (g.step scene).result = (told.tick scene).result ∧
      (g.step scene).graph = (told.tick scene).graph ∧
      (g.step scene).entity = (told.tick scene).entity := by
  by_cases idle : g.phase = .idle
  · rw [g.step_of_idle scene idle]
    exact ⟨rfl, rfl, rfl⟩
  · have busy : ¬ g.isIdle = true := by simpa [isIdle] using idle
    have told : (g.notifyTick scene.world.delta).graph = g := congrArg Reply.graph (if_neg busy)
    simp only [told, g.step_of_busy scene idle, g.tick_of_busy scene idle, and_self]

theorem program_step : (g.step scene).graph.program = g.program := by
  rw [(g.step_eq_tick scene).2.1]
  exact (program_tick _ scene).trans (g.program_notifyWhere _ _)

end Graph

end Flowgraph
