import Flowgraph.Proofs.Builtin.Obedience

namespace Flowgraph

open Propagation (Run Turn)

namespace Entity

/-- An entity after calls, each made whether or not one before it crashed. -/
def afterCalls (entity : Entity) (commands : List Command) : Entity :=
  commands.foldl (fun entity c => (entity.perform c).1) entity

theorem afterCalls_append (entity : Entity) (first later : List Command) :
    entity.afterCalls (first ++ later) = (entity.afterCalls first).afterCalls later :=
  List.foldl_append

/-- No call changes who the entity is. -/
theorem handle_afterCalls (entity : Entity) (commands : List Command) :
    (entity.afterCalls commands).handle = entity.handle := by
  induction commands generalizing entity with
  | nil => rfl
  | cons c rest ih => exact ih (entity.perform c).1

end Entity

/-- One call and nothing kept: what is left of the entity is what the call leaves of it. -/
theorem Builtin.effect_done (c : Entity.Command) (entity : Entity) :
    (Builtin.done [c]).effect entity = (entity.perform c).1 ∧
      (Builtin.done [c]).ending entity = match (entity.perform c).2 with
        | .returned => .results []
        | .crashed text => .panicked text := by
  obtain ⟨body, completion, called⟩ := entity.perform_eq c
  unfold Evaluation.effect Evaluation.ending Builtin.done
  simp only [Entity.performAll, called]
  cases completion <;> exact ⟨rfl, rfl⟩

namespace Node

variable {node : Node} {inputs : List Value} {scene : Scene} {c : Entity.Command}

/-- A run gives an order: the node is due and takes its inputs, the first of them is the handle of
the entity, and for the others the template has an order. -/
structure Orders (node : Node) (inputs : List Value) (scene : Scene) (c : Entity.Command) :
    Prop where
  active : node.active = true
  valid : validates (Port.types node.template.inputs) inputs = true
  own : inputs[0]? = some (.handle scene.entity.handle)
  order : Builtin.order? node.template.name inputs = some c

/-- The commands that a run gives the entity, in order. -/
def commands (node : Node) (inputs : List Value) (scene : Scene) : List Entity.Command :=
  ((node.evaluation? inputs scene).map (·.commands)).getD []

/-- The one order of a template is called once, and the run ends as the call does. -/
theorem Orders.run (obeys : node.template.Obeys) (orders : node.Orders inputs scene c) :
    node.commands inputs scene = [c] ∧
      (node.run inputs scene).entity = (scene.entity.perform c).1 ∧
      (node.run inputs scene).outcome = match (scene.entity.perform c).2 with
        | .returned => .ran []
        | .crashed text => .faulted (.evaluationFailed (.panicked text)) := by
  obtain ⟨active, valid, own, order⟩ := orders
  obtain ⟨kind, outputs, evaluator, found, evaluates⟩ := obeys.commands inputs c order
  have evaluated : evaluator inputs (node.context scene) = Builtin.done [c] :=
    (evaluates _).trans (Builtin.command_of_own own)
  have called : node.evaluation? inputs scene = some (Builtin.done [c]) := by
    simp only [evaluation?, starts, active, valid, kind, found, evaluated, Bool.and_self, if_true,
      Option.map_some]
  obtain ⟨effect, ending⟩ := Builtin.effect_done c scene.entity
  refine ⟨by rw [commands, called]; rfl, by rw [entity_run, called]; exact effect, ?_⟩
  simp only [Node.run, active, valid, kind, evaluate, found, evaluated, ending, Bool.not_true,
    Bool.false_eq_true, if_false]
  cases (scene.entity.perform c).2 with
  | crashed text => rfl
  | returned =>
    change (node.store []).1 = _
    rw [store, outputs]
    rfl

/-- A run without an order calls nothing and leaves the entity as it is, be it for want of the
handle, of a vector, of valid inputs or of being due. -/
theorem undisturbed (obeys : node.template.Obeys)
    (silent : ∀ c, ¬ node.Orders inputs scene c) :
    node.commands inputs scene = [] ∧ (node.run inputs scene).entity = scene.entity := by
  have quiet : ∀ evaluation, node.evaluation? inputs scene = some evaluation →
      evaluation.commands = [] ∧ evaluation.memory = none := by
    intro evaluation called
    obtain ⟨starts, evaluator, found, rfl⟩ := evaluation?_eq_some called
    obtain ⟨active, valid⟩ := Bool.and_eq_true_iff.mp starts
    cases order : Builtin.order? node.template.name inputs with
    | none => exact obeys.silent inputs order evaluator found _
    | some c =>
      obtain ⟨_, _, _, own, evaluates⟩ := obeys.commands inputs c order
      cases found.symm.trans own
      -- the inputs have an order, so it is for want of the handle that none is given
      have foreign : inputs[0]? ≠ some (.handle scene.entity.handle) := fun own =>
        silent c ⟨active, valid, own, order⟩
      rw [evaluates, Builtin.command_of_foreign foreign]
      exact ⟨rfl, rfl⟩
  rw [entity_run, commands]
  cases called : node.evaluation? inputs scene with
  | none => exact ⟨rfl, rfl⟩
  | some evaluation =>
    obtain ⟨none, unkept⟩ := quiet evaluation called
    simp only [Option.map_some, Option.getD_some, Evaluation.effect, none, unkept,
      Entity.performAll, Option.getD_none, and_self]

end Node

namespace Graph

variable {g : Graph} {scene : Scene} {p : Propagation}

/-- What a run of a tick has an entity do: the order of its template, if the inputs passed and the
first of them was the handle of the entity. -/
def orders (g : Graph) (handle : Handle) (e : Execution) : List Entity.Command :=
  match g.node? e.node with
  | some node =>
    if validates (Port.types node.template.inputs) e.inputs = true ∧
        e.inputs[0]?.bind Value.asHandle? = some handle then
      (Builtin.order? node.template.name e.inputs).toList
    else []
  | none => []

/-- Each node is of a template that obeys. -/
def Obeys (g : Graph) : Prop := ∀ id node, g.node? id = some node → node.template.Obeys

/-- What one run of a tick makes of the entity is what its order makes of it, if it has one. -/
theorem entity_of_run (obeys : g.Obeys) (running : g.Running p) {keys : Keyboard}
    {world : World} {e : Execution} {node : Node} {rest : List NodeId}
    (run : Run keys world p e node rest) :
    (node.run e.inputs ⟨p.entity, keys, world⟩).entity =
      p.entity.afterCalls (g.orders p.entity.handle e) := by
  obtain ⟨twin, atId, template⟩ := running.twin run.live
  have own : node.template.Obeys := template ▸ obeys _ _ atId
  simp only [orders, atId, template]
  by_cases given : ∃ c, node.Orders e.inputs ⟨p.entity, keys, world⟩ c
  · obtain ⟨c, given⟩ := given
    rw [(given.run own).2.1, if_pos ⟨given.valid, Builtin.handle_iff.mpr given.own⟩, given.order]
    rfl
  · rw [(Node.undisturbed own (not_exists.mp given)).2]
    split
    · rename_i passed
      have none : Builtin.order? node.template.name e.inputs = none :=
        Option.eq_none_iff_forall_ne_some.mpr fun c order =>
          given ⟨c, run.active, passed.1, Builtin.handle_iff.mp passed.2, order⟩
      rw [none]
      rfl
    · rfl

/-- At every stage of a tick the entity is as the orders so far have made it. -/
theorem Stage.entity (stage : g.Stage scene p) (whole : g.Integrity) (obeys : g.Obeys) :
    p.entity =
      scene.entity.afterCalls (p.trace.toList.flatMap (g.orders scene.entity.handle)) := by
  refine Stage.induct whole ?_ ?_ stage
  · rfl
  · intro p q e node rest woken _ running turn before
    have handle : p.entity.handle = scene.entity.handle := by
      rw [before, Entity.handle_afterCalls]
    rw [turn.entity, entity_of_run obeys running turn.toRun, handle, turn.trace,
      Array.toList_push, List.flatMap_append, Entity.afterCalls_append, ← before,
      List.flatMap_singleton]

end Graph

end Flowgraph
