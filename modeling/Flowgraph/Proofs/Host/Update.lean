import Flowgraph.Host.Behavior
import Flowgraph.Proofs.Graph.Stuck

namespace Flowgraph

theorem UpdateSummary.append_assoc (a b c : UpdateSummary) : a ++ b ++ c = a ++ (b ++ c) := by
  change (a.append b).append c = a.append (b.append c)
  simp only [append, Nat.add_assoc, List.append_assoc]

theorem UpdateSummary.empty_append (a : UpdateSummary) : ({} : UpdateSummary) ++ a = a := by
  change append {} a = a
  simp only [append, Nat.zero_add, List.nil_append]

namespace Behavior

open Flowgraph.Graph (Abandoned Call abandoned_stuck detour isIdle_eq_false quiet reachable_detour
  reachable_stuck stuck tick_cases whenIdle_of_busy whenIdle_of_idle)

variable {g first : Graph} {scene : Scene} {position : Nat} {earlier later : List Graph}

theorem updateGraph_of_busy (busy : g.phase ≠ .idle) (scene : Scene) :
    updateGraph g scene =
      { result := .error (.refused .propagating), graph := g, entity := scene.entity,
        notices := [.editWhilePropagating] } := by
  have polled : g.activateSources = _ := whenIdle_of_busy (isIdle_eq_false busy)
  simp only [updateGraph, polled]

/-- Polling an idle graph is not refused, and its update is a step of what polling leaves. -/
theorem updateGraph_of_idle (idle : g.phase = .idle) (scene : Scene) :
    (updateGraph g scene).result = (g.activateSources.graph.step scene).result ∧
      (updateGraph g scene).graph = (g.activateSources.graph.step scene).graph ∧
      (updateGraph g scene).entity = (g.activateSources.graph.step scene).entity := by
  have free : g.isIdle = true := by simp [Graph.isIdle, idle]
  have polled : g.activateSources.result = .ok _ := congrArg Reply.result (whenIdle_of_idle free)
  simp only [updateGraph, polled, and_self]

/-- An update of an idle graph completes one tick of it or is cut short in it. -/
theorem updateGraph_cases (reach : g.Reachable) (idle : g.phase = .idle) (scene : Scene) :
    (updateGraph g scene).result = .error .escaped ∨
      ∃ report, (updateGraph g scene).result = .ok report ∧
        (updateGraph g scene).graph.phase = .idle ∧
        (updateGraph g scene).graph.ticks = g.ticks + 1 := by
  obtain ⟨result, graph, _⟩ := updateGraph_of_idle idle scene
  obtain ⟨stepResult, stepGraph, _⟩ := g.activateSources.graph.step_eq_tick scene
  rw [result, graph, stepResult, stepGraph]
  -- the tick is of the graph that was polled and then told of the clock
  have polled := reach.call .activateSources
  obtain ⟨pollPhase, pollTicks⟩ := Call.activateSources.clock_after (fun ticks => ticks) g
  have told := polled.call (.notifyTick scene.world.delta)
  obtain ⟨phase, ticks⟩ := (Call.notifyTick scene.world.delta).clock_after (fun ticks => ticks)
    (Call.activateSources.after g)
  refine (tick_cases told.integrity (phase.trans (pollPhase.trans idle)) scene).imp_right ?_
  rintro ⟨report, done, completed⟩
  refine ⟨report, done, completed.phase, completed.ticks.trans ?_⟩
  rw [ticks, pollTicks]

/-- An update of some graphs and then of others: it ends with the first of them that fails, and the
others act on the entity as the first left it. -/
theorem updateFrom_append (scene : Scene) (position : Nat) (earlier later : List Graph) :
    updateFrom scene position (earlier ++ later) =
      let before := updateFrom scene position earlier
      match before.result with
      | .error failure =>
        { result := .error failure, graphs := before.graphs ++ later, entity := before.entity,
          notices := before.notices }
      | .ok summary =>
        let others :=
          updateFrom { scene with entity := before.entity } (position + earlier.length) later
        { result := others.result.map (summary ++ ·)
          graphs := before.graphs ++ others.graphs
          entity := others.entity
          notices := before.notices ++ others.notices } := by
  induction earlier generalizing scene position with
  | nil =>
    change updateFrom scene position later = _
    generalize alone : updateFrom scene position later = reply
    simp only [updateFrom, List.length_nil, Nat.add_zero, List.nil_append,
      UpdateSummary.empty_append, alone]
    obtain ⟨result, _⟩ := reply
    cases result <;> rfl
  | cons g rest ih =>
    have moved : position + 1 + rest.length = position + (rest.length + 1) := by omega
    simp only [List.cons_append, List.length_cons, updateFrom, ih, moved]
    cases (updateGraph g scene).result with
    | error failure => rfl
    | ok report =>
      simp only
      generalize updateFrom { scene with entity := (updateGraph g scene).entity } (position + 1)
        rest = before
      cases before.result with
      | error failure => rfl
      | ok summary =>
        simp only [Except.map]
        generalize updateFrom { scene with entity := before.entity } _ later = others
        cases others.result with
        | error failure => simp only [List.append_assoc, List.cons_append]
        | ok summary => simp only [UpdateSummary.append_assoc, List.append_assoc, List.cons_append]

/-- A failure among the first graphs ends the update, whatever comes after them. -/
theorem updateFrom_append_of_error {failure : TickFailure}
    (failed : (updateFrom scene position earlier).result = .error failure) (later : List Graph) :
    (updateFrom scene position (earlier ++ later)).result = .error failure := by
  rw [updateFrom_append]
  simp only [failed]

/-- Once the first graphs are through, a busy graph refuses the update. -/
theorem updateFrom_append_of_busy {summary : UpdateSummary}
    (done : (updateFrom scene position earlier).result = .ok summary)
    (busy : first.phase ≠ .idle) (later : List Graph) :
    updateFrom scene position (earlier ++ first :: later) =
      { result := .error (.refused .propagating)
        graphs := (updateFrom scene position earlier).graphs ++ first :: later
        entity := (updateFrom scene position earlier).entity
        notices := (updateFrom scene position earlier).notices ++ [.editWhilePropagating] } := by
  rw [updateFrom_append]
  simp only [done, updateFrom, updateGraph_of_busy busy, Except.map]

/-- Idle graphs are all updated, each through one tick, unless a crash escapes from one of them. -/
theorem updateFrom_of_idle (reach : ∀ g ∈ earlier, g.Reachable)
    (idle : ∀ g ∈ earlier, g.phase = .idle) (scene : Scene) (position : Nat) :
    (updateFrom scene position earlier).result = .error .escaped ∨
      (∃ summary, (updateFrom scene position earlier).result = .ok summary) ∧
        (∀ h ∈ (updateFrom scene position earlier).graphs, h.phase = .idle) ∧
        (updateFrom scene position earlier).graphs.map (·.ticks) =
          earlier.map (·.ticks + 1) := by
  induction earlier generalizing scene position with
  | nil => exact Or.inr ⟨⟨_, rfl⟩, fun h member => absurd member List.not_mem_nil, rfl⟩
  | cons g rest ih =>
    obtain ⟨reachHere, reachRest⟩ := List.forall_mem_cons.mp reach
    obtain ⟨idleHere, idleRest⟩ := List.forall_mem_cons.mp idle
    simp only [updateFrom]
    rcases updateGraph_cases reachHere idleHere scene with
      escaped | ⟨report, done, phase, ticks⟩
    · exact Or.inl (by simp only [escaped])
    · simp only [done]
      rcases ih reachRest idleRest { scene with entity := (updateGraph g scene).entity }
        (position + 1) with escaped | ⟨⟨summary, others⟩, phases, counts⟩
      · exact Or.inl (by rw [escaped]; rfl)
      · refine Or.inr ⟨⟨_, by rw [others]; rfl⟩, List.forall_mem_cons.mpr ⟨phase, phases⟩, ?_⟩
        rw [List.map_cons, List.map_cons, ticks, counts]

/-- The busy graphs of a list, if there are any, begin with one. -/
theorem exists_first_busy {graphs : List Graph} (busy : ∃ g ∈ graphs, g.phase ≠ .idle) :
    ∃ earlier first later, graphs = earlier ++ first :: later ∧
      (∀ g ∈ earlier, g.phase = .idle) ∧ first.phase ≠ .idle := by
  obtain ⟨g, member, halted⟩ := busy
  cases found : graphs.find? (!·.isIdle) with
  | none =>
    have free := List.find?_eq_none.mp found g member
    simp [isIdle_eq_false halted] at free
  | some first =>
    obtain ⟨halted, earlier, later, split, before⟩ := List.find?_eq_some_iff_append.mp found
    refine ⟨earlier, first, later, split, fun g member => ?_, ?_⟩
    · simpa [Graph.isIdle] using before g member
    · simpa [Graph.isIdle] using halted

/-- A graph that a crash has left in the middle of a tick is frozen: every call on it, after any
others, is refused as one that came during a tick, and changes neither the graph nor the entity. An
update of graphs with such a one among them, unless a crash escapes again, is refused in the same
way at the first of them: the graphs before it are updated as if they were alone, each through one
tick, and it and the graphs after it are left as they were. -/
theorem abandoned_frozen :
    (∀ g : Graph, g.Abandoned → ∀ calls : List Call, g.afterAll calls = g ∧
      ∀ call : Call, call.error? (g.afterAll calls) = some .propagating ∧
        call.entityAfter? (g.afterAll calls) = call.entity?) ∧
    ∀ (b : Behavior) (scene : Scene), (∀ g ∈ b.graphs, g.Reachable) →
      (∃ g ∈ b.graphs, g.Abandoned) → (b.update scene).result ≠ .error .escaped →
        ∃ earlier first later, b.graphs = earlier ++ first :: later ∧
          (∀ g ∈ earlier, ¬ g.Abandoned) ∧ first.Abandoned ∧
          (b.update scene).result = .error (.refused .propagating) ∧
          let before := update ⟨earlier⟩ scene
          (∃ summary, before.result = .ok summary) ∧
            (b.update scene).graphs = before.graphs ++ first :: later ∧
            (b.update scene).entity = before.entity ∧
            (∀ h ∈ before.graphs, h.phase = .idle) ∧
            before.graphs.map (·.ticks) = earlier.map (·.ticks + 1) := by
  refine ⟨fun g abandoned calls => ?_, fun b scene reach stuck unharmed => ?_⟩
  · have same := Graph.afterAll_of_busy abandoned.busy calls
    refine ⟨same, fun call => ?_⟩
    rw [same]
    have refused := (call.refused_of_busy abandoned.busy).1
    exact ⟨refused, call.entity_of_error refused⟩
  · obtain ⟨earlier, first, later, split, idle, busy⟩ := exists_first_busy
      (stuck.imp fun g ⟨member, abandoned⟩ => ⟨member, abandoned.busy⟩)
    have reachable (g : Graph) (member : g ∈ earlier ++ first :: later) : g.Reachable :=
      reach g (split ▸ member)
    have free (g : Graph) (member : g ∈ earlier) : ¬ g.Abandoned :=
      fun abandoned => abandoned.busy (idle g member)
    refine ⟨earlier, first, later, split, free,
      (reachable first (by simp)).abandoned busy, ?_⟩
    simp only [update, split] at unharmed ⊢
    rcases updateFrom_of_idle (fun g member => reachable g (List.mem_append_left _ member)) idle
      scene 0 with escaped | ⟨⟨summary, done⟩, phases, counts⟩
    · exact absurd (updateFrom_append_of_error escaped (first :: later)) unharmed
    · rw [updateFrom_append_of_busy done busy later]
      exact ⟨rfl, ⟨summary, done⟩, rfl, rfl, phases, counts⟩

/-- A graph that is stuck, between two that are not. -/
theorem abandoned_frozen_between :
    (Call.addNode "Unheard").error? (stuck.afterAll [.activateSources]) = some .propagating ∧
      (update ⟨[detour, stuck, detour]⟩ quiet).result = .error (.refused .propagating) ∧
      ∃ moved, (update ⟨[detour, stuck, detour]⟩ quiet).graphs = [moved, stuck, detour] ∧
        moved.phase = .idle ∧ moved.ticks = 1 := by
  obtain ⟨frozen, updates⟩ := abandoned_frozen
  have reach : ∀ g ∈ [detour, stuck, detour], g.Reachable := by
    simp [reachable_detour, reachable_stuck]
  have free : ¬ detour.Abandoned := fun abandoned => abandoned.busy rfl
  have unharmed : (update ⟨[detour, stuck, detour]⟩ quiet).result ≠ .error .escaped := by
    intro escaped
    -- polling maps over all slots, which only unfolding everything evaluates
    have refused : (update ⟨[detour, stuck, detour]⟩ quiet).result =
      .error (.refused .propagating) := by with_unfolding_all rfl
    cases refused.symm.trans escaped
  obtain ⟨earlier, first, later, split, before, abandoned, result, _, graphs, _, phases, counts⟩ :=
    updates ⟨[detour, stuck, detour]⟩ quiet reach ⟨stuck, by simp, abandoned_stuck⟩ unharmed
  refine ⟨((frozen stuck abandoned_stuck _).2 _).1, result, ?_⟩
  rcases earlier with _ | ⟨x, _ | ⟨y, more⟩⟩
  · obtain ⟨rfl, _⟩ := List.cons.inj split
    exact absurd abandoned free
  · obtain ⟨rfl, rest⟩ := List.cons.inj split
    obtain ⟨rfl, rfl⟩ := List.cons.inj rest
    obtain ⟨moved, alone, ticks⟩ := List.map_eq_singleton_iff.mp counts
    rw [graphs, alone]
    exact ⟨moved, rfl, phases moved (by simp [alone]), ticks⟩
  · obtain ⟨rfl, rest⟩ := List.cons.inj split
    obtain ⟨rfl, _⟩ := List.cons.inj rest
    exact absurd abandoned_stuck (before stuck (by simp))

end Behavior

end Flowgraph
