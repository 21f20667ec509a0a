import Flowgraph.Proofs.Builtin.Templates
import Flowgraph.Proofs.Tick.Overflow

namespace Flowgraph

open Template (Declaration)

namespace Builtin

variable {inputs : List Value} {context : EvaluationContext} {c : Entity.Command}

/-- The order that a template gives, by its name, if the inputs after the handle can be read. -/
def order? (template : String) (inputs : List Value) : Option Entity.Command :=
  match template with
  | "SetEntityVelocity" => (Inputs.vec2? inputs 1).map .setVelocity
  | "SetEntityVelocityX" => some (.setVelocityX (Inputs.number inputs 1))
  | "ApplyEntityForce" => (Inputs.vec2? inputs 1).map .applyForce
  | "SetEntityScale" => some (.setScale (Inputs.number inputs 1))
  | _ => none

theorem handle_iff {handle : Handle} :
    inputs[0]?.bind Value.asHandle? = some handle ↔ inputs[0]? = some (.handle handle) := by
  cases inputs[0]? with
  | none => simp
  | some v => cases v <;> simp [Value.asHandle?]

/-- Who is in control is asked of the first input: it has to be the very handle of the entity, in
its identifier and in the name of its type. -/
theorem controls_firstInput :
    context.controls (firstInput inputs) = true ↔
      inputs[0]? = some (.handle context.entity.handle) := by
  unfold EvaluationContext.controls firstInput
  rw [beq_iff_eq, List.head?_eq_getElem?, ← handle_iff]
  cases inputs[0]? with
  | none => simp [Value.asHandle?]
  | some v => rfl

theorem command_of_own (own : inputs[0]? = some (.handle context.entity.handle)) :
    command inputs context c = done [c] := by
  rw [command, if_pos (controls_firstInput.mpr own)]

/-- Handed anything but the handle of the entity, a template of orders gives none and does not
fail. -/
theorem command_of_foreign (foreign : inputs[0]? ≠ some (.handle context.entity.handle)) :
    command inputs context c = done [] := by
  rw [command, if_neg (mt controls_firstInput.mp foreign)]

end Builtin

/-- A template gives the order of its name to the entity, or none at all, and never escapes. -/
structure Template.Obeys (t : Template) : Prop where
  contained : t.Contained
  commands : ∀ inputs c, Builtin.order? t.name inputs = some c →
    t.kind = .plain ∧ t.outputs = [] ∧ ∃ evaluator, t.evaluator = some evaluator ∧
      ∀ context, evaluator inputs context = Builtin.command inputs context c
  silent : ∀ inputs, Builtin.order? t.name inputs = none → ∀ evaluator,
    t.evaluator = some evaluator → ∀ context,
      (evaluator inputs context).commands = [] ∧ (evaluator inputs context).memory = none

namespace Builtin

variable {t : Template} {inputs : List Value} {context : EvaluationContext}

end Builtin

end Flowgraph
