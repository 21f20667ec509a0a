import Flowgraph.Graph.Saved
import Flowgraph.Proofs.Dictionary
import Flowgraph.Proofs.Graph.Node

namespace Flowgraph

/-- What a port stores is the value itself, or an integer at an `int` port. -/
theorem PortType.coerce?_eq_some {type : PortType} {v stored : Value}
    (coerced : type.coerce? v = some stored) :
    type.accepts v = true ∧ (stored = v ∨ type = .int ∧ ∃ i, stored = .int i) := by
  unfold coerce? at coerced
  split at coerced
  · rename_i accepted
    refine ⟨accepted, ?_⟩
    split at coerced
    · obtain ⟨i, _, rfl⟩ := Option.map_eq_some_iff.mp coerced
      exact Or.inr ⟨rfl, i, rfl⟩
    · cases coerced
      exact Or.inl rfl
  · cases coerced

/-- A port stores what it has stored as it is. -/
theorem PortType.coerce?_idem {type : PortType} {v stored : Value}
    (coerced : type.coerce? v = some stored) : type.coerce? stored = some stored := by
  obtain ⟨_, same | ⟨rfl, i, rfl⟩⟩ := coerce?_eq_some coerced
  · subst same
    exact coerced
  · rfl

/-- As many defaults as settings, and each stored as it is by its port unless the port refuses
it. -/
structure Template.Restorable (t : Template) : Prop where
  length : t.defaults.length = t.internals.length
  default : ∀ (index : Nat) port v, t.internals[index]? = some port → t.defaults[index]? = some v →
    port.type.coerce? v = some v ∨ port.type.coerce? v = none

namespace Node

/-- Each setting is the default of its place or in the form that its port stores. -/
structure Settled (node : Node) : Prop where
  length : node.internals.length = node.template.defaults.length
  value : ∀ (index : Nat) v, node.internals[index]? = some v →
    node.template.defaults[index]? = some v ∨
      ∃ port, node.template.internals[index]? = some port ∧ port.type.coerce? v = some v

theorem settled_stamp (id : NodeId) (t : Template) : (stamp id t).Settled :=
  ⟨rfl, fun _ _ read => Or.inl read⟩

theorem Settled.of_still {node twin : Node} (settled : node.Settled)
    (same : twin.still = node.still) : twin.Settled := by
  have template : twin.template = node.template := (congrArg Node.template same :)
  have internals : twin.internals = node.internals := (congrArg Node.internals same :)
  constructor
  · rw [internals, template]
    exact settled.length
  · rw [internals, template]
    exact settled.value

theorem Settled.withInternal {node changed : Node} (settled : node.Settled) {index : Nat}
    {port : Port} {v stored : Value} (atIndex : node.template.internals[index]? = some port)
    (coerced : port.type.coerce? v = some stored)
    (set : node.withInternal? index stored = some changed) : changed.Settled := by
  unfold withInternal? at set
  split at set
  · cases set
    refine ⟨by simpa using settled.length, fun other value read => ?_⟩
    rw [List.getElem?_set] at read
    split at read
    · rename_i here
      subst here
      cases read
      exact Or.inr ⟨port, atIndex, PortType.coerce?_idem coerced⟩
    · exact settled.value other value read
  · cases set

end Node

namespace Graph

/-- A saved setting is taken in its place if the port accepts it. -/
theorem getElem?_restoreSettings (current : List Value) (ports : List Port) (saved : List Value)
    (index : Nat) :
    (restoreSettings current ports saved)[index]? = current[index]?.map fun value =>
      match ports[index]?, saved[index]? with
      | some port, some v => (port.type.coerce? v).getD value
      | _, _ => value := by
  simp only [restoreSettings, List.getElem?_map, List.getElem?_zipIdx, Nat.zero_add]
  cases current[index]? with
  | none => rfl
  | some value => rfl

/-- Saved settings take the place of settled ones only in the form that the port stores. -/
theorem settled_restore {node : Node} (settled : node.Settled) (saved : List Value) :
    ({ node with
        internals := restoreSettings node.internals node.template.internals saved } :
      Node).Settled := by
  refine ⟨by simpa [restoreSettings] using settled.length, fun index v read => ?_⟩
  simp only [getElem?_restoreSettings] at read
  obtain ⟨value, current, kept⟩ := Option.map_eq_some_iff.mp read
  split at kept
  · rename_i port saved atPort _
    cases coerced : port.type.coerce? saved with
    | none =>
      rw [coerced] at kept
      cases kept
      exact settled.value index _ current
    | some stored =>
      rw [coerced] at kept
      cases kept
      exact Or.inr ⟨port, atPort, PortType.coerce?_idem coerced⟩
  · cases kept
    exact settled.value index _ current

/-- Settings come back from what is saved of them. -/
theorem restoreSettings_of_settled {node : Node} (settled : node.Settled)
    (fits : node.template.Restorable) :
    restoreSettings node.template.defaults node.template.internals node.internals =
      node.internals := by
  apply List.ext_getElem?
  intro index
  rw [getElem?_restoreSettings]
  cases saved : node.internals[index]? with
  | none =>
    have beyond : node.template.defaults.length ≤ index := by
      rw [← settled.length]
      exact List.getElem?_eq_none_iff.mp saved
    rw [List.getElem?_eq_none_iff.mpr beyond]
    rfl
  | some v =>
    have inside : index < node.template.defaults.length := by
      rw [← settled.length]
      exact (List.getElem?_eq_some_iff.mp saved).1
    have portInside : index < node.template.internals.length := fits.length ▸ inside
    have default := List.getElem?_eq_getElem inside
    have atPort := List.getElem?_eq_getElem portInside
    rw [default, atPort, Option.map_some, Option.some.injEq]
    rcases settled.value index v saved with isDefault | ⟨port, samePort, stored⟩
    · cases default.symm.trans isDefault
      rcases fits.default index _ _ atPort default with kept | refused
      · simp only [kept, Option.getD_some]
      · simp only [refused, Option.getD_none]
    · cases atPort.symm.trans samePort
      simp only [stored, Option.getD_some]

/-- A node of a template with as many defaults as settings has a place for each of them. -/
theorem firstUnplaced?_eq_none {node : Node} (saved : List Value)
    (places : node.internals.length = node.template.internals.length) :
    firstUnplaced? node saved = none := by
  unfold firstUnplaced?
  rw [List.findSome?_eq_none_iff]
  rintro ⟨⟨port, value⟩, index⟩ member
  have bound := List.snd_lt_of_mem_zipIdx member
  simp only [List.length_zip] at bound
  have placed : ¬ node.internals.length ≤ index := by omega
  simp only [placed, false_and, if_false]

end Graph

namespace Registry

/-- What is registered is found under its own name, and nothing else is lost. -/
theorem get?_register (r : Registry) (t : Template) (name : String) :
    (r.register t).get? name = if name = t.name then some t else r.get? name := by
  unfold get? register
  rw [Dictionary.get?_cons, Dictionary.get?_erase]
  split <;> rfl

theorem keyed_declare {r : Registry} (own : ∀ name t, r.get? name = some t → t.name = name)
    (declarations : List Template.Declaration) {name : String} {t : Template}
    (found : (r.declare declarations).get? name = some t) : t.name = name := by
  induction declarations generalizing r with
  | nil => exact own name t found
  | cons d rest ih =>
    refine ih (r := r.register d.template) (fun name t found => ?_) found
    rw [get?_register] at found
    split at found
    · rename_i here
      cases found
      exact here.symm
    · exact own name t found

theorem mem_templates_declare {r : Registry} {t : Template}
    (declarations : List Template.Declaration) (member : t ∈ (r.declare declarations).templates) :
    t ∈ r.templates ∨ ∃ d ∈ declarations, d.template = t := by
  induction declarations generalizing r with
  | nil => exact Or.inl member
  | cons d rest ih =>
    rcases ih (r := r.register d.template) member with old | ⟨other, there, same⟩
    · obtain ⟨entry, entered, rfl⟩ := List.mem_map.mp old
      rcases List.mem_cons.mp entered with rfl | older
      · exact Or.inr ⟨d, List.mem_cons_self, rfl⟩
      · exact Or.inl (List.mem_map_of_mem (List.mem_filter.mp older).1)
    · exact Or.inr ⟨other, List.mem_cons_of_mem _ there, same⟩

/-- A registry holds templates under their own names. -/
theorem name_of_get? {declarations : List Template.Declaration} {name : String} {t : Template}
    (found : (declare {} declarations).get? name = some t) : t.name = name :=
  keyed_declare (fun _ _ found => by cases found) declarations found

end Registry

end Flowgraph
