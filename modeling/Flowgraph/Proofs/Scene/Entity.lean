import Flowgraph.Template.Basic

namespace Flowgraph

/-- No lookup of a key crashes. -/
def Keyboard.Reliable (keys : Keyboard) : Prop := ∀ key, ∃ pressed, keys.look key = .ok pressed

namespace Entity

variable (entity : Entity)

/-- No command crashes the entity, whatever its body has become. -/
def Reliable : Prop := ∀ command body, (entity.conduct command body).2 = .returned

/-- No reading of the velocity crashes, whatever the body has become. -/
def Legible : Prop := ∀ body, ∃ v, entity.gauge body = .ok v

/-- A call keeps who the entity is, what its operations are and what evaluators keep. -/
theorem perform_eq (command : Command) : ∃ body completion,
    entity.perform command = ({ entity with toBody := body }, completion) :=
  ⟨_, _, rfl⟩

/-- What a call keeps, calls in a row keep, wherever a crash ends them. -/
theorem performAll_eq (commands : List Command) : ∃ body completion,
    entity.performAll commands = ({ entity with toBody := body }, completion) := by
  induction commands generalizing entity with
  | nil => exact ⟨entity.toBody, .returned, rfl⟩
  | cons command rest ih =>
    obtain ⟨body, completion, called⟩ := entity.perform_eq command
    rw [performAll, called]
    cases completion with
    | returned => exact ih { entity with toBody := body }
    | crashed text => exact ⟨body, .crashed text, rfl⟩

variable {entity}

theorem Reliable.perform (reliable : entity.Reliable) (command : Command) :
    (entity.perform command).2 = .returned :=
  reliable command entity.toBody

theorem Reliable.performAll (reliable : entity.Reliable) (commands : List Command) :
    (entity.performAll commands).2 = .returned := by
  induction commands generalizing entity with
  | nil => rfl
  | cons command rest ih =>
    obtain ⟨body, completion, called⟩ := entity.perform_eq command
    have returned := reliable.perform command
    rw [called] at returned
    rw [Entity.performAll, called]
    cases returned
    exact ih reliable

/-- A simulated entity carries out every command and returns. -/
theorem reliable_atRest (handle : Handle) (mass : Float) : (atRest handle mass).Reliable :=
  fun _ _ => rfl

theorem legible_atRest (handle : Handle) (mass : Float) : (atRest handle mass).Legible :=
  fun body => ⟨body.velocity, rfl⟩

end Entity

namespace Evaluation

variable {evaluation : Evaluation} {entity : Entity}

/-- Unless the entity crashes, an evaluation ends as the evaluator has it. -/
theorem ending_cases (evaluation : Evaluation) (entity : Entity) :
    evaluation.ending entity = evaluation.outcome ∨ ∃ text,
      (entity.performAll evaluation.commands).2 = .crashed text ∧
        evaluation.ending entity = .panicked text := by
  unfold ending
  cases (entity.performAll evaluation.commands).2 with
  | returned => exact Or.inl rfl
  | crashed text => exact Or.inr ⟨text, rfl, rfl⟩

theorem outcome_of_ending {outcome : EvaluationOutcome}
    (ended : evaluation.ending entity = outcome) (whole : ∀ text, outcome ≠ .panicked text) :
    evaluation.outcome = outcome := by
  rcases evaluation.ending_cases entity with same | ⟨text, _, crashed⟩
  · exact same.symm.trans ended
  · exact absurd (ended.symm.trans crashed) (whole text)

/-- An evaluation changes an entity in its body and in the memory that goes with it. -/
theorem effect_eq (evaluation : Evaluation) (entity : Entity) : ∃ body memory,
    evaluation.effect entity = { entity with toBody := body, memory } := by
  obtain ⟨body, completion, called⟩ := entity.performAll_eq evaluation.commands
  refine ⟨body, evaluation.memory.getD entity.memory, ?_⟩
  rw [effect, called]

end Evaluation

end Flowgraph
