import Flowgraph.Proofs.Tick.Places

namespace Flowgraph

/-- No evaluation ends in a crash that a running node cannot contain. -/
def Template.Contained (t : Template) : Prop :=
  ∀ evaluator, t.evaluator = some evaluator → ∀ inputs (context : EvaluationContext),
    (evaluator inputs context).outcome ≠ .escaped

/-- The outcomes that a run of a node of a template may have. -/
inductive Template.Admits (t : Template) : RunOutcome → Prop
  | skipped : t.Admits .skipped
  | ran (activations : List Bool) : t.Admits (.ran activations)
  | mismatch : t.Admits (.faulted .typeMismatch)
  | failed (failure : EvaluationFailure) : t.Admits (.faulted (.evaluationFailed failure))
  | escaped {evaluator : Evaluator} {inputs : List Value} {context : EvaluationContext} :
      t.evaluator = some evaluator → (evaluator inputs context).outcome = .escaped →
      t.Admits .escaped

/-- Whether a run has faulted. -/
def RunOutcome.isFault : RunOutcome → Bool
  | .faulted _ => true
  | _ => false

namespace Node

variable (node : Node) (inputs : List Value) (scene : Scene)

theorem admits_store (t : Template) (results : List PortResult) :
    t.Admits (node.store results).1 := by
  unfold store
  simp only
  split
  · exact .ran _
  · exact .failed _

/-- A run ends in one of the ways that its template admits; the cap is none of them. -/
theorem admits_run : node.template.Admits (node.run inputs scene).outcome := by
  unfold run
  split
  · exact .skipped
  split
  · exact .mismatch
  cases node.template.kind with
  | event => exact admits_store _ _ _
  | constant => exact admits_store _ _ _
  | plain | internal =>
    simp only [evaluate]
    cases found : node.template.evaluator with
    | none => exact .failed _
    | some evaluator =>
      simp only
      cases ended : (evaluator inputs (node.context scene)).ending scene.entity with
      | results results => exact admits_store _ _ _
      | failed reason => exact .failed _
      | panicked text => exact .failed _
      | escaped => exact .escaped found (Evaluation.outcome_of_ending ended (by simp))

end Node

namespace Graph

variable {g : Graph} {scene : Scene}

/-- No node of the graph lets a crash escape. -/
def Contained (g : Graph) : Prop := ∀ id node, g.node? id = some node → node.template.Contained

/-- The faults that are reported of runs are those of the runs that fault, one for each and in their
order. -/
theorem forall₂_reports {runs : List Execution} (live : ∀ e ∈ runs, g.Live e.node) :
    List.Forall₂ g.Reports (runs.filter (·.outcome.isFault)) (runs.filterMap g.faultOf?) := by
  induction runs with
  | nil => exact .nil
  | cons e rest ih =>
    obtain ⟨⟨node, atHead⟩, later⟩ := List.forall_mem_cons.mp live
    cases outcome : e.outcome with
    | faulted kind =>
      have reports : g.Reports e ⟨e.node, node.template.name, kind⟩ :=
        ⟨rfl, outcome, node, atHead, rfl⟩
      rw [List.filter_cons_of_pos (by simp [outcome, RunOutcome.isFault]),
        List.filterMap_cons_some (faultOf?_eq_some.mpr reports)]
      exact .cons reports (ih later)
    | skipped | ran | escaped =>
      have none : g.faultOf? e = none := by simp only [faultOf?, outcome]
      rw [List.filter_cons_of_neg (by simp [outcome, RunOutcome.isFault]),
        List.filterMap_cons_none none]
      exact ih later

theorem admits_of_trace (whole : g.Integrity) {e : Execution} (member : e ∈ g.trace scene) :
    ∃ node, g.node? e.node = some node ∧ node.template.Admits e.outcome := by
  obtain ⟨i, entry⟩ := Array.mem_iff_getElem?.mp member
  obtain ⟨p, node, rest, stage, _, run⟩ := run_of_trace whole entry
  obtain ⟨twin, atId, template⟩ := (stage.running whole).twin run.live
  refine ⟨twin, atId, ?_⟩
  rw [template, run.outcome]
  exact node.admits_run e.inputs _

/-- Only an evaluator makes a run escape, so a tick of nodes that contain their crashes
completes. -/
theorem completes_of_contained (whole : g.Integrity) (contained : g.Contained)
    (idle : g.phase = .idle) (scene : Scene) : ∃ report, (g.tick scene).result = .ok report := by
  rcases completes_or_cutShort whole idle scene with done | ⟨p, q, e, _, _, _, cut, trace, _⟩
  · exact done
  · have member : e ∈ g.trace scene := by
      rw [trace, cut.trace]
      exact Array.mem_push_self
    obtain ⟨node, live, admits⟩ := admits_of_trace whole member
    rw [cut.escaped] at admits
    cases admits with
    | escaped found ended => exact absurd ended (contained _ node live _ found _ _)

theorem LastStage.overflowed_iff {report : TickReport} {p : Propagation}
    (last : g.LastStage scene report p) :
    report.overflowed = true ↔ ∃ p, g.Stage scene p ∧ p.executions = g.cap ∧ p.pending ≠ [] := by
  constructor
  · intro overflowed
    obtain ⟨waiting, spent⟩ := last.capped overflowed
    exact ⟨p, last.stage, spent, waiting⟩
  · rintro ⟨q, stage, spent, waiting⟩
    -- the loop goes no further than this stage, so it cannot have settled at another one
    by_contra below
    have empty := last.settled (Bool.eq_false_iff.mpr below)
    have ended := stage.propagate_of_capped spent waiting
    rw [last.stage.propagate_of_settled empty] at ended
    cases (Prod.mk.inj ended).2

/-- Below the cap nothing is reported but the faults of the runs. -/
theorem LastStage.faults_of_settled {report : TickReport} {p : Propagation}
    (last : g.LastStage scene report p) (below : report.overflowed = false) :
    report.faults = p.faults.toList := by
  have done := last.done
  rw [last.reply, below] at done
  cases done
  rfl

/-- At the cap there is one more fault than those of the runs, and it names the node that was
next. -/
theorem LastStage.faults_of_capped {report : TickReport} {p : Propagation}
    (last : g.LastStage scene report p) (whole : g.Integrity) (overflowed : report.overflowed = true) :
    ∃ id rest node, p.pending = id :: rest ∧ g.node? id = some node ∧
      report.faults = p.faults.toList ++ [⟨id, node.template.name, .overflow g.cap⟩] := by
  have running := last.stage.running whole
  obtain ⟨id, rest, queue⟩ := List.exists_cons_of_ne_nil (last.capped overflowed).1
  obtain ⟨twin, atId, named⟩ := running.queued.faults_abandon queue g.cap
  obtain ⟨node, live, template⟩ := running.twin atId
  refine ⟨id, rest, node, queue, live, ?_⟩
  rw [template, ← named]
  have done := last.done
  rw [last.reply, overflowed] at done
  cases done
  rfl

/-- A tick of nodes that contain their crashes completes within its cap, which is the product of its
factor and the number of nodes, as far as that can be counted. It overflows if, and only if, nodes
are still due after as many runs. Then its last fault, and no other, names the cap and the node that
was next; all other faults are those of the runs that met with one, in their order. -/
theorem overflow_accounted (reach : g.Reachable) (idle : g.phase = .idle)
    (contained : g.Contained) (scene : Scene) :
    g.cap = min (g.config.capFactor * g.nodeList.length) GraphConfig.maxCap ∧
    ∃ report met, (g.tick scene).result = .ok report ∧
      report.executions = (g.trace scene).size ∧ report.executions ≤ g.cap ∧
      (report.overflowed = true ↔
        ∃ p, g.Stage scene p ∧ p.executions = g.cap ∧ p.pending ≠ []) ∧
      List.Forall₂ g.Reports ((g.trace scene).toList.filter (·.outcome.isFault)) met ∧
      (∀ fault ∈ met, ∀ cap, fault.kind ≠ .overflow cap) ∧
      (report.overflowed = false → report.faults = met) ∧
      (report.overflowed = true → report.executions = g.cap ∧
        ∃ p id rest node, g.Stage scene p ∧ p.executions = g.cap ∧ p.pending = id :: rest ∧
          g.node? id = some node ∧
          report.faults = met ++ [⟨id, node.template.name, .overflow g.cap⟩]) := by
  have whole := reach.integrity
  obtain ⟨report, done⟩ := completes_of_contained whole contained idle scene
  obtain ⟨p, last⟩ := lastStage_of_tick whole done
  have admits {e : Execution} (member : e ∈ (g.trace scene).toList) :=
    admits_of_trace whole (Array.mem_toList_iff.mp member)
  have faults : p.faults.toList = (g.trace scene).toList.filterMap g.faultOf? := by
    rw [last.stage.faults whole, last.trace]
  refine ⟨?_, report, p.faults.toList, done, ?_, ?_, last.overflowed_iff, ?_, ?_, ?_, ?_⟩
  · rw [← whole.liveNodes]
    rfl
  · exact (last.size_trace whole).symm
  · rw [last.executions]
    exact last.stage.executions_le
  · rw [faults]
    exact forall₂_reports fun e member => (admits member).imp fun node ⟨live, _⟩ => live
  · intro fault met cap overflow
    obtain ⟨e, member, found⟩ := List.mem_filterMap.mp (faults ▸ met)
    obtain ⟨node, _, admitted⟩ := admits member
    rw [(faultOf?_eq_some.mp found).kind, overflow] at admitted
    cases admitted
  · exact last.faults_of_settled
  · intro overflowed
    obtain ⟨_, spent⟩ := last.capped overflowed
    obtain ⟨id, rest, node, queue, live, faults⟩ := last.faults_of_capped whole overflowed
    exact ⟨last.executions.trans spent, p, id, rest, node, last.stage, spent, queue, live, faults⟩

theorem contained_hurried : hurried.Contained := by
  intro id node live
  have registry : hurried.registry = Registry.declare {} (flow ++ [balk]) := registry_afterAll _ _
  have member := reachable_hurried.registered live
  rw [registry] at member
  rcases Registry.mem_templates_declare _ member with old | ⟨d, declared, template⟩
  · cases old
  rw [← template]
  intro evaluator found inputs context
  simp only [flow, List.cons_append, List.nil_append, List.mem_cons, List.not_mem_nil,
    or_false] at declared
  rcases declared with rfl | rfl | rfl | rfl
  · cases found
  all_goals
    cases found
    exact fun escaped => by cases escaped

theorem overflow_accounted_hurried :
    hurried.Reachable ∧ hurried.phase = .idle ∧ hurried.Contained ∧ hurried.cap = 4 ∧
      (hurried.tick quiet).result = .ok ⟨4, [balked, ⟨⟨2⟩, "Join", .overflow 4⟩], true⟩ ∧
      List.Forall₂ hurried.Reports
        ((hurried.trace quiet).toList.filter (·.outcome.isFault)) [balked] ∧
      ∃ p rest, hurried.Stage quiet p ∧ p.executions = 4 ∧ p.pending = ⟨2⟩ :: rest := by
  obtain ⟨_, report, met, done, _, _, _, reports, _, _, overflow⟩ :=
    overflow_accounted reachable_hurried rfl contained_hurried quiet
  obtain rfl := Except.ok.inj (done.symm.trans tick_hurried)
  obtain ⟨_, p, id, rest, node, stage, spent, queue, _, faults⟩ := overflow rfl
  change [balked] ++ [_] = met ++ [_] at faults
  obtain ⟨rfl, last⟩ := List.append_inj' faults rfl
  obtain ⟨rfl, _⟩ := NodeFault.mk.inj (List.cons.inj last).1
  exact ⟨reachable_hurried, rfl, contained_hurried, rfl, done, reports, p, rest, stage, spent,
    queue⟩

end Graph

end Flowgraph
