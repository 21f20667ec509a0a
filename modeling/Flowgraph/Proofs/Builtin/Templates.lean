import Flowgraph.Proofs.Builtin.Typing
import Flowgraph.Proofs.Saved.RoundTrip

namespace Flowgraph

open Template (Declaration Sound)

namespace Builtin

variable {t : Template} {inputs : List Value} {context : EvaluationContext}

theorem answers_active {values : List Value} (fits : Fits t.outputs values) :
    t.Answers inputs context (active values).outcome := by
  refine .results ?_
  simpa [Function.comp_def] using fits

theorem answers_done (silent : t.outputs = []) (commands : List Entity.Command) :
    t.Answers inputs context (done commands).outcome := by
  refine .results ?_
  rw [silent]
  trivial

theorem answers_command (silent : t.outputs = []) (c : Entity.Command) :
    t.Answers inputs context (command inputs context c).outcome :=
  answers_done silent _

theorem answers_withVec2 {index : Nat} (port : Port) {use : Vec2 → Evaluation}
    (atPort : t.inputs[index]? = some port) (used : ∀ v, t.Answers inputs context (use v).outcome) :
    t.Answers inputs context (withVec2 inputs index port.name use).outcome := by
  unfold withVec2
  cases read : Inputs.vec2? inputs index with
  | some v => exact used v
  | none => exact .failed (Or.inl ⟨index, port, atPort, read, rfl⟩)

theorem answers_keyResults (outputs : t.outputs = keyOutputs) (key : String) :
    t.Answers inputs context (keyResults (context.keys.look key)).outcome := by
  cases seen : context.keys.look key with
  | ok pressed =>
    refine .results ?_
    rw [outputs]
    exact ⟨rfl, rfl, rfl, trivial⟩
  | error text => exact .unseen seen

theorem answers_velocityResults {port : Port} (object : port.type = .object)
    (single : t.outputs = [port]) :
    t.Answers inputs context (velocityResults context.entity.reading).outcome := by
  cases read : context.entity.reading with
  | ok velocity =>
    apply answers_active
    rw [single]
    exact ⟨by rw [object]; rfl, trivial⟩
  | error text => exact .unread read

/-- Arithmetic gives a number, if not always a finite one. -/
theorem isNumeric_arithmetic (exact : Int → Int → Int) (rounded : Float → Float → Float)
    (inputs : List Value) : (arithmetic exact rounded inputs).isNumeric = true := by
  unfold arithmetic
  simp only
  split
  · split <;> rfl
  · rfl

/-- Arithmetic gives one number, an integer only if both inputs are, and perhaps one that is not
finite. -/
theorem answers_arithmetic {port : Port} (number : port.type = .number)
    (single : t.outputs = [port]) (exact : Int → Int → Int) (rounded : Float → Float → Float) :
    t.Answers inputs context (active [arithmetic exact rounded inputs]).outcome := by
  apply answers_active
  rw [single]
  refine ⟨?_, trivial⟩
  rw [number]
  exact isNumeric_arithmetic exact rounded inputs

/-- A plain template is sound if all of its evaluations answer; it holds no settings and is told
nothing. -/
theorem sound_plain {category name : String} {inputs outputs : List Port} {evaluate : Evaluator}
    {exported : Bool}
    (answers : ∀ values context,
      (Declaration.plain category name inputs outputs evaluate exported).template.Answers values
        context (evaluate values context).outcome) :
    (Declaration.plain category name inputs outputs evaluate exported).template.Sound :=
  { defaults := trivial
    constant := fun kind => by cases kind
    event := fun kind => by cases kind
    computed := fun _ => ⟨evaluate, rfl, fun values context _ => answers values context⟩ }

/-- An event template is sound if every payload that the host gives it fits its outputs. -/
theorem sound_event {category name : String} {outputs : List Port}
    (payloads : ∀ payload, Notifies name payload → Fits outputs payload) :
    (Declaration.event category name outputs).template.Sound :=
  { defaults := trivial
    constant := fun kind => by cases kind
    event := fun _ => payloads
    computed := fun kind => by simp [Declaration.template] at kind }

theorem sound_internal {category name : String} {inputs internals outputs : List Port}
    {defaults : List Value} {evaluate : Evaluator} {exported : Bool}
    (fits : Fits internals defaults)
    (answers : ∀ values (context : EvaluationContext), Fits internals context.internals →
      (Declaration.internal category name inputs internals defaults outputs evaluate
        exported).template.Answers values context (evaluate values context).outcome) :
    (Declaration.internal category name inputs internals defaults outputs evaluate
      exported).template.Sound :=
  { defaults := Template.fits_fitDefaults fits
    constant := fun kind => by cases kind
    event := fun kind => by cases kind
    computed := fun _ => ⟨evaluate, rfl, answers⟩ }

/-- A constant emits its settings, so that it is sound if its defaults fit. -/
theorem sound_constant {category name : String} {ports : List Port} {defaults : List Value}
    {exported : Bool} (fits : Fits ports defaults) :
    (Declaration.constant category name ports defaults exported).template.Sound :=
  { defaults := Template.fits_fitDefaults fits
    constant := fun _ => rfl
    event := fun kind => by cases kind
    computed := fun kind => by simp [Declaration.template] at kind }

theorem sound_entity : ∀ d ∈ entityTemplates, d.template.Sound := by
  simp only [entityTemplates, List.forall_mem_cons]
  refine ⟨?_, ?_, ?_, ?_, ?_, ?_, fun _ member => absurd member List.not_mem_nil⟩
  · exact sound_plain fun _ _ => answers_active ⟨rfl, trivial⟩
  · refine sound_plain fun _ _ => ?_
    exact answers_withVec2 ⟨"v", .object, none⟩ rfl fun _ => answers_command rfl _
  · exact sound_plain fun _ _ => answers_command rfl _
  · refine sound_plain fun _ _ => ?_
    exact answers_withVec2 ⟨"force", .object, none⟩ rfl fun _ => answers_command rfl _
  · refine sound_plain fun inputs context => ?_
    split
    · exact answers_velocityResults rfl rfl
    · exact .failed (Or.inr rfl)
  · exact sound_plain fun _ _ => answers_command rfl _

theorem sound_events : ∀ d ∈ eventTemplates, d.template.Sound := by
  simp only [eventTemplates, List.forall_mem_cons]
  refine ⟨?_, ?_, fun _ member => absurd member List.not_mem_nil⟩
  · refine sound_event fun payload notifies => ?_
    rcases notifies with ⟨_, dt, rfl⟩ | ⟨other, _⟩
    · exact ⟨rfl, trivial⟩
    · exact absurd other (by decide)
  · refine sound_event fun payload notifies => ?_
    rcases notifies with ⟨other, _⟩ | ⟨_, normal, handle, rfl⟩
    · exact absurd other (by decide)
    · exact ⟨rfl, rfl, trivial⟩

theorem sound_input : ∀ d ∈ inputTemplates, d.template.Sound := by
  simp only [inputTemplates, List.forall_mem_cons]
  refine ⟨?_, ?_, ?_, fun _ member => absurd member List.not_mem_nil⟩
  · exact sound_internal ⟨rfl, trivial⟩ fun _ _ _ => answers_keyResults rfl _
  · exact sound_plain fun _ _ => answers_keyResults rfl _
  · exact sound_internal ⟨rfl, rfl, trivial⟩ fun _ _ _ => answers_active ⟨rfl, trivial⟩

theorem sound_logic : ∀ d ∈ logicTemplates, d.template.Sound := by
  simp only [logicTemplates, List.forall_mem_cons]
  refine ⟨?_, fun _ member => absurd member List.not_mem_nil⟩
  exact sound_plain fun _ _ => answers_active ⟨rfl, trivial⟩

theorem sound_math : ∀ d ∈ mathTemplates, d.template.Sound := by
  simp only [mathTemplates, List.forall_mem_cons]
  refine ⟨?_, ?_, ?_, ?_, ?_, ?_, ?_, ?_, fun _ member => absurd member List.not_mem_nil⟩
  · exact sound_constant ⟨rfl, trivial⟩
  · exact sound_plain fun _ _ => answers_arithmetic rfl rfl _ _
  · exact sound_plain fun _ _ => answers_arithmetic rfl rfl _ _
  · exact sound_plain fun _ _ => .results trivial
  · exact sound_plain fun _ _ => answers_active ⟨rfl, trivial⟩
  · refine sound_plain fun _ _ => ?_
    exact answers_withVec2 ⟨"v", .object, none⟩ rfl fun _ =>
      answers_active ⟨rfl, rfl, trivial⟩
  · refine sound_plain fun _ _ => ?_
    exact answers_withVec2 ⟨"v", .object, none⟩ rfl fun _ =>
      answers_active ⟨rfl, trivial⟩
  · refine sound_plain fun _ _ => ?_
    exact answers_withVec2 ⟨"v", .object, none⟩ rfl fun _ =>
      answers_active ⟨rfl, trivial⟩

/-- What is tuned is emitted as it is set. -/
theorem sound_tunable {name : String} {type : PortType} {settings : List Port}
    {defaults : List Value}
    (fits : Fits ([⟨"name", .string, none⟩, ⟨"value", type, none⟩] ++ settings) defaults) :
    (tunable name type settings defaults).template.Sound := by
  refine sound_internal fits fun _ context held => answers_active ?_
  match context.internals, held with
  | _ :: _ :: _, ⟨_, value, _⟩ => exact ⟨value, trivial⟩

theorem sound_exports : ∀ d ∈ exportTemplates, d.template.Sound := by
  simp only [exportTemplates, List.forall_mem_cons]
  refine ⟨?_, ?_, ?_, fun _ member => absurd member List.not_mem_nil⟩
  · exact sound_tunable ⟨rfl, rfl, trivial⟩
  · exact sound_tunable ⟨rfl, rfl, trivial⟩
  · exact sound_tunable ⟨rfl, rfl, rfl, rfl, trivial⟩

end Builtin

/-- What the templates of each category have, every template of the built-in registry has. -/
theorem Registry.forall_builtin {motive : Template → Prop}
    (entity : ∀ d ∈ Builtin.entityTemplates, motive d.template)
    (events : ∀ d ∈ Builtin.eventTemplates, motive d.template)
    (input : ∀ d ∈ Builtin.inputTemplates, motive d.template)
    (logic : ∀ d ∈ Builtin.logicTemplates, motive d.template)
    (math : ∀ d ∈ Builtin.mathTemplates, motive d.template)
    (exports : ∀ d ∈ Builtin.exportTemplates, motive d.template) :
    ∀ t ∈ builtin.templates, motive t := by
  intro t member
  rcases mem_templates_declare _ member with old | ⟨d, declared, rfl⟩
  · cases old
  simp only [List.mem_append] at declared
  rcases declared with ((((inEntity | inEvents) | inInput) | inLogic) | inMath) | inExports
  · exact entity d inEntity
  · exact events d inEvents
  · exact input d inInput
  · exact logic d inLogic
  · exact math d inMath
  · exact exports d inExports

/-- Every template of the built-in registry is sound. -/
theorem Registry.sound_builtin {t : Template} (member : t ∈ builtin.templates) : t.Sound :=
  forall_builtin Builtin.sound_entity Builtin.sound_events Builtin.sound_input Builtin.sound_logic
    Builtin.sound_math Builtin.sound_exports t member

end Flowgraph
