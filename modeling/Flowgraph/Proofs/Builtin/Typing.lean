import Flowgraph.Proofs.Graph.Inputs
import Flowgraph.Proofs.Saved.Settings

namespace Flowgraph

/-- An infinity or no number at all. -/
def Value.NonFinite (v : Value) : Prop := ∃ x, v = .float x ∧ x.isFinite = false

namespace PortType

/-- Whether an output of this type may hold a value. -/
def stores : PortType → Value → Bool
  | .int, .int _ => true
  | .int, _ => false
  | .number, v => v.isNumeric
  | type, v => type.accepts v

/-- Whether every finite value that an output of one type holds is accepted by an input of the
other. -/
def suits : (output input : PortType) → Bool
  | .int, .int | .int, .number | .int, .float => true
  | .number, .number | .number, .float => true
  | .float, .float | .float, .number => true
  | .string, .string | .bool, .bool | .object, .object => true
  | _, .any => true
  | _, _ => false

/-- What an unwired input receives always passes. -/
theorem accepts_zero (type : PortType) : type.accepts type.zero = true := by
  cases type <;> rfl

theorem stores_zero (type : PortType) : type.stores type.zero = true := by
  cases type <;> rfl

theorem accepts_number {v : Value} (numeric : v.isNumeric = true) :
    number.accepts v = true ∨ v.NonFinite := by
  cases v with
  | int i => exact Or.inl rfl
  | float x =>
    cases finite : x.isFinite with
    | true => exact Or.inl finite
    | false => exact Or.inr ⟨x, rfl, finite⟩
  | _ => cases numeric

/-- A port stores a little more than it accepts, since arithmetic may leave the finite doubles. -/
theorem accepts_of_stores {type : PortType} {v : Value} (stored : type.stores v = true) :
    type.accepts v = true ∨ type = .number ∧ v.NonFinite := by
  cases type with
  | int =>
    cases v with
    | int i => exact Or.inl rfl
    | _ => cases stored
  | number => exact (accepts_number stored).imp_right fun loose => ⟨rfl, loose⟩
  | _ => exact Or.inl stored

theorem stores_of_coerce? {type : PortType} {v stored : Value}
    (coerced : type.coerce? v = some stored) : type.stores stored = true := by
  unfold coerce? at coerced
  split at coerced
  · rename_i accepted
    split at coerced
    · obtain ⟨i, _, rfl⟩ := Option.map_eq_some_iff.mp coerced
      rfl
    · rename_i whole
      cases coerced
      cases type with
      | int =>
        cases v with
        | int i => rfl
        | float x => exact absurd rfl (whole x rfl)
        | _ => cases accepted
      | number =>
        cases v with
        | int | float => rfl
        | _ => cases accepted
      | _ => exact accepted
  · cases coerced

/-- Between ports that suit each other only a number that is not finite is turned away. -/
theorem accepts_of_suits {output input : PortType} {v : Value} (suited : output.suits input = true)
    (stored : output.stores v = true) :
    input.accepts v = true ∨ input = .number ∧ v.NonFinite := by
  have integer (held : PortType.int.stores v = true) : ∃ i, v = .int i := by
    cases v with
    | int i => exact ⟨i, rfl⟩
    | _ => cases held
  have numeric (held : v.isNumeric = true) :
      number.accepts v = true ∨ number = .number ∧ v.NonFinite :=
    (accepts_number held).imp_right fun loose => ⟨rfl, loose⟩
  cases input with
  | any => exact Or.inl rfl
  | int =>
    cases output with
    | int =>
      obtain ⟨i, rfl⟩ := integer stored
      exact Or.inl rfl
    | _ => cases suited
  | number =>
    cases output with
    | int =>
      obtain ⟨i, rfl⟩ := integer stored
      exact Or.inl rfl
    | number | float => exact numeric stored
    | _ => cases suited
  | float =>
    cases output with
    | int =>
      obtain ⟨i, rfl⟩ := integer stored
      exact Or.inl rfl
    | number | float => exact Or.inl stored
    | _ => cases suited
  | string | bool | object =>
    cases output
    all_goals first | exact Or.inl stored | cases suited

end PortType

/-- As many values as ports, each of which its port may hold. -/
def Fits : List Port → List Value → Prop
  | [], [] => True
  | port :: ports, v :: values => port.type.stores v = true ∧ Fits ports values
  | _, _ => False

theorem fits_iff {ports : List Port} {values : List Value} :
    Fits ports values ↔ values.length = ports.length ∧ ∀ (index : Nat) port v,
      ports[index]? = some port → values[index]? = some v → port.type.stores v = true := by
  induction ports generalizing values with
  | nil =>
    cases values with
    | nil => simp [Fits]
    | cons v rest => simp [Fits]
  | cons port ports ih =>
    cases values with
    | nil => simp [Fits]
    | cons v rest =>
      rw [Fits, ih]
      constructor
      · rintro ⟨first, length, others⟩
        refine ⟨by simpa using length, fun index other w atPort atValue => ?_⟩
        cases index with
        | zero =>
          cases atPort
          cases atValue
          exact first
        | succ index => exact others index other w atPort atValue
      · rintro ⟨length, all⟩
        exact ⟨all 0 port v rfl rfl, by simpa using length,
          fun index other w atPort atValue => all (index + 1) other w atPort atValue⟩

theorem Fits.length {ports : List Port} {values : List Value} (fits : Fits ports values) :
    values.length = ports.length :=
  (fits_iff.mp fits).1

theorem fits_zeros (ports : List Port) : Fits ports (Port.zeros ports) := by
  induction ports with
  | nil => trivial
  | cons port rest ih => exact ⟨port.type.stores_zero, ih⟩

theorem Template.fits_fitDefaults {ports : List Port} {defaults : List Value}
    (fits : Fits ports defaults) : Fits ports (fitDefaults ports defaults) := by
  have whole : fitDefaults ports defaults = defaults := by
    unfold fitDefaults
    rw [fits.length, List.drop_length, ← fits.length, List.take_length]
    exact List.append_nil _
  rw [whole]
  exact fits

/-- Settings that are defaults or were accepted fit, if the defaults do. -/
theorem Node.Settled.fits {node : Node} (settled : node.Settled)
    (defaults : Fits node.template.internals node.template.defaults) :
    Fits node.template.internals node.internals := by
  obtain ⟨length, each⟩ := fits_iff.mp defaults
  refine fits_iff.mpr ⟨settled.length.trans length, fun index port v atPort atValue => ?_⟩
  rcases settled.value index v atValue with default | ⟨other, atOther, coerced⟩
  · exact each index port v atPort default
  · cases atPort.symm.trans atOther
    exact PortType.stores_of_coerce? coerced

/-- What the host tells of by itself: the name of the event and its payload. -/
def Builtin.Notifies (name : String) (payload : List Value) : Prop :=
  (name = onTick ∧ ∃ dt, payload = [.float dt]) ∨
    (name = onCollide ∧ ∃ (normal : Vec2) (other : Handle),
      payload = [normal.toValue, .handle other])

namespace Template

/-- The two reasons for which an evaluation fails: an input that is no vector, and an entity that
cannot be reached. -/
def Explains (t : Template) (inputs : List Value) (reason : String) : Prop :=
  (∃ index port, t.inputs[index]? = some port ∧ Inputs.vec2? inputs index = none ∧
    reason = s!"input `{port.name}` is not a Vec2") ∨
  reason = s!"cannot resolve entity {(Builtin.firstInput inputs).display}"

/-- An evaluation gives results that fit the outputs, fails for one of the two reasons, or crashes
with the lookup of a key or the reading of the velocity. -/
inductive Answers (t : Template) (inputs : List Value) (context : EvaluationContext) :
    EvaluationOutcome → Prop
  | results {results : List PortResult} :
      Fits t.outputs (results.map (·.value)) → Answers t inputs context (.results results)
  | failed {reason : String} : t.Explains inputs reason → Answers t inputs context (.failed reason)
  | unseen {key : String} {text : Option String} :
      context.keys.look key = .error text → Answers t inputs context (.panicked text)
  | unread {text : Option String} :
      context.entity.reading = .error text → Answers t inputs context (.panicked text)

/-- A template whose nodes only ever have results that fit, on whatever inputs. -/
structure Sound (t : Template) : Prop where
  defaults : Fits t.internals t.defaults
  constant : t.kind = .constant → t.outputs = t.internals
  event : t.kind = .event → ∀ payload, Builtin.Notifies t.name payload → Fits t.outputs payload
  computed : t.kind = .plain ∨ t.kind = .internal → ∃ evaluator, t.evaluator = some evaluator ∧
    ∀ inputs (context : EvaluationContext), Fits t.internals context.internals →
      t.Answers inputs context (evaluator inputs context).outcome

/-- How a run of a node can end, on its inputs and in its surroundings. -/
inductive Expected (t : Template) (inputs : List Value) (scene : Scene) : RunOutcome → Prop
  | skipped : Expected t inputs scene .skipped
  | ran (activations : List Bool) : Expected t inputs scene (.ran activations)
  | mismatch : validates (Port.types t.inputs) inputs = false →
      Expected t inputs scene (.faulted .typeMismatch)
  | failed {reason : String} : t.Explains inputs reason →
      Expected t inputs scene (.faulted (.evaluationFailed (.stated reason)))
  | unseen {key : String} {text : Option String} : scene.keys.look key = .error text →
      Expected t inputs scene (.faulted (.evaluationFailed (.panicked text)))
  | unread {text : Option String} : scene.entity.reading = .error text →
      Expected t inputs scene (.faulted (.evaluationFailed (.panicked text)))
  | crashed {commands : List Entity.Command} {text : Option String} :
      (scene.entity.performAll commands).2 = .crashed text →
      Expected t inputs scene (.faulted (.evaluationFailed (.panicked text)))

end Template

namespace Node

/-- The stored results of a node fit its outputs, and what it will emit does too. -/
structure Typed (node : Node) : Prop where
  outputs : Fits node.template.outputs node.outputs
  payload : ∀ values, node.payload = some values → Fits node.template.outputs values

variable {node : Node}

theorem typed_stamp (id : NodeId) (t : Template) : (stamp id t).Typed :=
  ⟨fits_zeros t.outputs, fun _ armed => by cases armed⟩

theorem Typed.withActive (typed : node.Typed) (active : Bool) :
    ({ node with active } : Node).Typed :=
  ⟨typed.outputs, typed.payload⟩

theorem Typed.arm (typed : node.Typed) {payload : List Value}
    (fits : Fits node.template.outputs payload) : (node.arm payload).Typed := by
  refine ⟨typed.outputs, fun values armed => ?_⟩
  -- a payload is cut and padded as defaults are
  cases armed
  exact Template.fits_fitDefaults fits

/-- One result for each output is stored, so that a run with such results counts as run. -/
theorem Typed.store (typed : node.Typed) {results : List PortResult}
    (fits : Fits node.template.outputs (results.map (·.value))) :
    (node.store results).2.Typed ∧ ∃ activations, (node.store results).1 = .ran activations := by
  have length : results.length = node.template.outputs.length := by
    rw [← fits.length, List.length_map]
  unfold Node.store
  simp only [length, if_true]
  exact ⟨⟨fits, typed.payload⟩, _, rfl⟩

theorem Typed.emit (typed : node.Typed) {values : List Value}
    (fits : Fits node.template.outputs values) (entity : Entity) :
    (node.emit values entity).node.Typed ∧
      ∃ activations, (node.emit values entity).outcome = .ran activations := by
  apply typed.store
  simpa [Function.comp_def] using fits

/-- A run of a node of a sound template keeps its results typed and ends as expected. -/
theorem Typed.run (typed : node.Typed) (sound : node.template.Sound)
    (settings : Fits node.template.internals node.internals) (inputs : List Value)
    (scene : Scene) :
    (node.run inputs scene).node.Typed ∧
      node.template.Expected inputs scene (node.run inputs scene).outcome := by
  unfold Node.run
  split
  · exact ⟨typed, .skipped⟩
  split
  · rename_i invalid
    exact ⟨typed, .mismatch (by simpa using invalid)⟩
  cases kind : node.template.kind with
  | event =>
    have values : Fits node.template.outputs
        (node.payload.getD (Port.zeros node.template.outputs)) := by
      cases armed : node.payload with
      | none => exact fits_zeros _
      | some payload => exact typed.payload payload armed
    have spent : ({ node with payload := none } : Node).Typed :=
      ⟨typed.outputs, fun _ armed => by cases armed⟩
    obtain ⟨emitted, activations, outcome⟩ := spent.emit values scene.entity
    simp only
    rw [outcome]
    exact ⟨emitted, .ran activations⟩
  | constant =>
    have values : Fits node.template.outputs node.internals := by
      rw [sound.constant kind]
      exact settings
    obtain ⟨emitted, activations, outcome⟩ := typed.emit values scene.entity
    simp only
    rw [outcome]
    exact ⟨emitted, .ran activations⟩
  | plain | internal =>
    obtain ⟨evaluator, found, answers⟩ := sound.computed (by simp [kind])
    have answer := answers inputs (node.context scene) settings
    simp only [evaluate, found]
    generalize evaluator inputs (node.context scene) = evaluation at answer
    rcases evaluation.ending_cases scene.entity with same | ⟨text, crash, crashed⟩
    · rw [same]
      generalize evaluation.outcome = outcome at answer
      cases answer with
      | results fits =>
        obtain ⟨stored, activations, outcome⟩ := typed.store fits
        simp only [conclude, outcome]
        exact ⟨stored, .ran activations⟩
      | failed explained => exact ⟨typed, .failed explained⟩
      | unseen crash => exact ⟨typed, .unseen crash⟩
      | unread crash => exact ⟨typed, .unread crash⟩
    · rw [crashed]
      exact ⟨typed, .crashed crash⟩

end Node

end Flowgraph
