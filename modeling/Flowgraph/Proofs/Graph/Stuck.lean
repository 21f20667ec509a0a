import Flowgraph.Proofs.Graph.Change
import Flowgraph.Proofs.Graph.Refusal
import Flowgraph.Proofs.Graph.Replies
import Flowgraph.Proofs.Tick.Outcome

namespace Flowgraph.Graph

variable {g : Graph} {scene : Scene}

/-- A call runs a tick from which a crash escapes. -/
def Call.Escapes (g : Graph) : Call → Prop
  | .tick scene => (g.tick scene).result = .error .escaped
  | .step scene => (g.step scene).result = .error .escaped
  | _ => False

/-- A graph as a crash left it that escaped from a tick. -/
inductive Abandoned : Graph → Prop
  | cut {g : Graph} {call : Call} : g.Reachable → call.Escapes g → Abandoned (call.after g)

theorem isIdle_eq_false (busy : g.phase ≠ .idle) : g.isIdle = false := by
  simpa [isIdle] using busy

/-- In the middle of a tick the first check of every call fails. -/
theorem Call.refused_of_busy (busy : g.phase ≠ .idle) (call : Call) :
    call.error? g = some .propagating ∧ call.after g = g := by
  have idle := isIdle_eq_false busy
  cases call with
  | tick scene =>
    rw [error?, after, g.tick_of_busy scene busy]
    exact ⟨rfl, rfl⟩
  | step scene =>
    rw [error?, after, g.step_of_busy scene busy]
    exact ⟨rfl, rfl⟩
  | _ =>
    exact ⟨congrArg Reply.error? (whenIdle_of_busy idle),
      congrArg Reply.graph (whenIdle_of_busy idle)⟩

/-- A graph in the middle of a tick stays as it is, whatever calls come. -/
theorem afterAll_of_busy (busy : g.phase ≠ .idle) (calls : List Call) : g.afterAll calls = g := by
  induction calls with
  | nil => rfl
  | cons call rest ih =>
    have same := (call.refused_of_busy busy).2
    change (call.after g).afterAll rest = g
    rw [same, ih]

/-- A tick of an idle graph completes, or a crash escapes from it. -/
theorem tick_cases (whole : g.Integrity) (idle : g.phase = .idle) (scene : Scene) :
    (g.tick scene).result = .error .escaped ∨
      ∃ report, (g.tick scene).result = .ok report ∧ g.Completed (g.tick scene).graph := by
  cases ended : (g.tick scene).result with
  | ok report =>
    obtain ⟨p, last⟩ := lastStage_of_tick whole ended
    exact Or.inr ⟨report, rfl, last.completed⟩
  | error failure =>
    cases failure with
    | escaped => exact Or.inl rfl
    | refused e =>
      obtain ⟨_, halted, _⟩ := tick_of_refused (by rw [TickReply.error?, ended])
      simp [isIdle, idle] at halted

/-- A tick that was cut short leaves its graph in the middle of it. -/
theorem phase_of_escaped (whole : g.Integrity) (escaped : (g.tick scene).result = .error .escaped) :
    (g.tick scene).graph.phase = .propagating := by
  by_cases idle : g.phase = .idle
  · rcases completes_or_cutShort whole idle scene with
      ⟨report, done⟩ | ⟨p, _, _, _, _, stage, _, _, same⟩
    · cases done.symm.trans escaped
    · rw [same, (stage.running whole).phase]
  · rw [g.tick_of_busy scene idle] at escaped
    cases escaped

theorem Abandoned.phase (abandoned : g.Abandoned) : g.phase = .propagating := by
  obtain @⟨g, call, reach, escapes⟩ := abandoned
  cases call with
  | tick scene => exact phase_of_escaped reach.integrity escapes
  | step scene =>
    obtain ⟨result, graph, _⟩ := g.step_eq_tick scene
    have told := (reach.call (.notifyTick scene.world.delta)).integrity
    rw [Call.after, graph]
    exact phase_of_escaped told (result.symm.trans escapes)
  | _ => exact escapes.elim

theorem Abandoned.busy (abandoned : g.Abandoned) : g.phase ≠ .idle := by
  rw [abandoned.phase]
  decide

/-- Nothing but an escaped crash leaves a graph in the middle of a tick. -/
theorem Reachable.abandoned (reach : g.Reachable) (busy : g.phase ≠ .idle) : g.Abandoned := by
  revert busy
  refine Reachable.induct ?_ ?_ ?_ ?_ reach
  · intro id registry config busy
    exact absurd rfl busy
  · intro id registry config form _ busy
    have around := (fresh_load id registry config form).2
    exact absurd (congrArg Graph.phase around) busy
  · intro g call between _ ih busy
    rw [call.phase_after between] at busy
    rw [(call.refused_of_busy busy).2]
    exact ih busy
  · intro g scene reach ih busy
    by_cases idle : g.phase = .idle
    · rcases tick_cases reach.integrity idle scene with escaped | ⟨_, _, completed⟩
      · have escapes : (Call.tick scene).Escapes g := escaped
        exact .cut reach escapes
      · exact absurd completed.phase busy
    -- a graph that refuses the tick was stuck before it
    · rw [g.tick_of_busy scene idle]
      exact ih idle

theorem abandoned_stuck : stuck.Abandoned := by
  have halted : stuck.phase = .propagating := rfl
  exact reachable_stuck.abandoned (by rw [halted]; decide)

end Flowgraph.Graph
