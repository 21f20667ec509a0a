import Flowgraph.Proofs.Graph.Formed
import Flowgraph.Proofs.Value.Whole

namespace Flowgraph

/-- An `int` port stores what reads as an integer, and as that integer. -/
theorem PortType.coerce?_int {v stored : Value} :
    int.coerce? v = some stored ↔ ∃ i, v.asInt? = some i ∧ stored = .int i := by
  cases v with
  | int i =>
    have kept : int.coerce? (.int i) = some (.int i) := rfl
    simp [kept, Value.asInt?, eq_comm]
  | float x =>
    unfold coerce?
    rw [Option.ite_none_right_eq_some, Option.map_eq_some_iff]
    constructor
    · rintro ⟨_, i, read, rfl⟩
      exact ⟨i, read, rfl⟩
    · rintro ⟨i, read, rfl⟩
      exact ⟨Option.isSome_iff_exists.mpr ⟨i, read⟩, i, read, rfl⟩
  | _ => simp [coerce?, accepts, Value.asInt?]

/-- Within the range of integers, an `int` port stores the integer that a value is, or nothing. -/
theorem PortType.stores_or_refuses {v : Value} (inside : ¬ v.Beyond) :
    (∃ i, v.Denotes i ∧ int.coerce? v = some (.int i)) ∨
      (∀ i, ¬ v.Denotes i) ∧ int.coerce? v = none := by
  cases coerced : int.coerce? v with
  | some stored =>
    obtain ⟨i, read, rfl⟩ := coerce?_int.mp coerced
    exact Or.inl ⟨i, (Value.asInt?_iff_denotes inside).mp read, rfl⟩
  | none =>
    refine Or.inr ⟨fun i denotes => ?_, rfl⟩
    have read := (Value.asInt?_iff_denotes inside).mpr denotes
    cases coerced.symm.trans (coerce?_int.mpr ⟨i, read, rfl⟩)

namespace Graph

variable {g : Graph} {v : Value} {index : Nat} {port : Port} {node : Node}

/-- A setting that is set: the integer is stored, and a value that denotes none is refused with an
error. -/
theorem setInternal_int {ref : NodeRef} (found : g.find? ref = some node)
    (atIndex : node.template.internals[index]? = some port) (type : port.type = .int)
    (inside : ¬ v.Beyond) :
    ((g.setInternal ref index v).result = .ok () → ∃ i changed, v.Denotes i ∧
        (g.setInternal ref index v).graph.node? ref.node = some changed ∧
        changed.internals[index]? = some (.int i)) ∧
      (g.isIdle = true → (∀ i, ¬ v.Denotes i) →
        g.setInternal ref index v =
          g.refuse (.settingMismatch ref.node index .int v.kindName)) := by
  have resolved := resolve_of_find? found
  have live := (resolve_eq_ok.mp resolved).2
  unfold setInternal
  cases idle : g.isIdle with
  | false =>
    rw [whenIdle_of_busy idle]
    exact ⟨fun answer => (by cases answer), fun quiet => (by cases quiet)⟩
  | true =>
    rw [whenIdle_of_idle idle, resolved]
    simp only [Graph.port, atIndex, type]
    rcases PortType.stores_or_refuses inside with ⟨i, denotes, coerced⟩ | ⟨none, coerced⟩
    · rw [coerced]
      refine ⟨fun answer => ?_, fun _ none => absurd denotes (none i)⟩
      simp only at answer ⊢
      cases set : node.withInternal? index (.int i) with
      | none =>
        rw [set] at answer
        cases answer
      | some changed =>
        simp only [accept]
        refine ⟨i, changed, denotes, ?_, ?_⟩
        · rw [node?_setNode live, if_pos rfl]
        · unfold Node.withInternal? at set
          obtain ⟨place, same⟩ := Option.ite_none_right_eq_some.mp set
          rw [← Option.some.inj same, List.getElem?_set_self place]
    · rw [coerced]
      exact ⟨fun answer => (by cases answer), fun _ _ => rfl⟩

/-- A setting that is loaded: the integer is stored, and a value that denotes none leaves the
default. -/
theorem load_int {id : GraphId} {registry : Registry} {config : GraphConfig} {form : SavedGraph}
    (answer : (load id registry config form).result = .ok ()) {position : Nat} {saved : SavedNode}
    {t : Template} {default : Value} (atPosition : form.nodes[position]? = some saved)
    (found : registry.get? saved.template = some t) (atIndex : t.internals[index]? = some port)
    (start : t.defaults[index]? = some default) (type : port.type = .int)
    (written : saved.settings[index]? = some v) (inside : ¬ v.Beyond) :
    ∃ node, (load id registry config form).graph.node? ⟨position⟩ = some node ∧
      (∀ i, v.Denotes i → node.internals[index]? = some (.int i)) ∧
        ((∀ i, ¬ v.Denotes i) → node.internals[index]? = some default) := by
  obtain ⟨refs, loading⟩ := loading_load answer
  obtain ⟨other, same, live⟩ := loading.node? atPosition
  cases found.symm.trans same
  refine ⟨_, live, ?_⟩
  have read : (copy ⟨position⟩ (saved.build t)).internals[index]? =
      some ((PortType.int.coerce? v).getD default) := by
    simp only [copy, SavedNode.build, getElem?_restoreSettings, start, atIndex, written, type,
      Option.map_some]
  rw [read]
  rcases PortType.stores_or_refuses inside with ⟨i, denotes, coerced⟩ | ⟨none, coerced⟩
  · rw [coerced, Option.getD_some]
    exact ⟨fun j other => by rw [denotes.unique other], fun none => absurd denotes (none i)⟩
  · rw [coerced, Option.getD_none]
    exact ⟨fun j other => absurd other (none j), fun _ => rfl⟩

/-- Tuning sets the integer, or finds no place for it, or finds that it is none. -/
theorem tune_int {values : Dictionary Value} {name : String}
    (tunable : node.tunable? = some (index, port, name)) (type : port.type = .int)
    (meant : Dictionary.get? values name = some v) (inside : ¬ v.Beyond) :
    (∃ i, v.Denotes i ∧
      (node.tune values = .missing index ∨ index < node.internals.length ∧
        node.tune values = .tuned { node with internals := node.internals.set index (.int i) })) ∨
      (∀ i, ¬ v.Denotes i) ∧ node.tune values = .misfit v .int := by
  unfold Node.tune
  simp only [tunable, meant, type]
  rcases PortType.stores_or_refuses inside with ⟨i, denotes, coerced⟩ | ⟨none, coerced⟩
  · refine Or.inl ⟨i, denotes, ?_⟩
    simp only [coerced, Node.withInternal?]
    by_cases place : index < node.internals.length
    · exact Or.inr ⟨place, by rw [if_pos place]⟩
    · exact Or.inl (by rw [if_neg place])
  · rw [coerced]
    exact Or.inr ⟨none, rfl⟩

/-- A call that tunes leaves each node as it was or tunes it by itself; if it succeeds, it has tuned
them all. -/
theorem node?_applyExports {id : NodeId} (live : g.node? id = some node)
    (values : Dictionary Value) :
    ∃ after, (g.applyExports values).graph.node? id = some after ∧
      (after = node ∨ after = (node.tune values).node node) ∧
      ∀ count, (g.applyExports values).result = .ok count →
        after = (node.tune values).node node ∧ ∀ place, node.tune values ≠ .missing place := by
  unfold applyExports
  cases idle : g.isIdle with
  | false =>
    rw [whenIdle_of_busy idle]
    exact ⟨node, live, Or.inl rfl, fun count answer => (by cases answer)⟩
  | true =>
    rw [whenIdle_of_idle idle]
    cases missing : g.firstMissing? values with
    | none =>
      refine ⟨(node.tune values).node node, ?_, Or.inr rfl,
        fun count _ => ⟨rfl, fun place lost => ?_⟩⟩
      · simp only [tuneWhere, accept, node?_mapNodes, live, Option.map_some, if_true]
      · have placed := List.findSome?_eq_none_iff.mp missing node (mem_nodeList.mpr ⟨id, live⟩)
        rw [lost] at placed
        cases placed
    | some place =>
      -- the call ends in the middle, and only the nodes before have been tuned
      simp only [tuneWhere, accept, node?_mapNodes, live, Option.map_some]
      refine ⟨_, rfl, ?_, fun count answer => (by cases answer)⟩
      split
      · exact Or.inr rfl
      · exact Or.inl rfl

/-- A setting that is tuned: the integer is stored, or the node stays as it was. -/
theorem applyExports_int {values : Dictionary Value} {name : String} {id : NodeId}
    (live : g.node? id = some node) (tunable : node.tunable? = some (index, port, name))
    (type : port.type = .int) (meant : Dictionary.get? values name = some v)
    (inside : ¬ v.Beyond) :
    ∃ after, (g.applyExports values).graph.node? id = some after ∧
      (after = node ∨ ∃ i, v.Denotes i ∧
        after = { node with internals := node.internals.set index (.int i) }) ∧
      ((∀ i, ¬ v.Denotes i) → after = node) ∧
      ∀ count, (g.applyExports values).result = .ok count → ∀ i, v.Denotes i →
        after.internals[index]? = some (.int i) := by
  obtain ⟨after, atId, either, answered⟩ := g.node?_applyExports live values
  refine ⟨after, atId, ?_⟩
  rcases tune_int tunable type meant inside with
    ⟨i, denotes, lost | ⟨place, tuned⟩⟩ | ⟨none, misfit⟩
  · rw [lost] at either answered
    exact ⟨Or.inl (or_self_iff.mp either), fun none => absurd denotes (none i),
      fun count answer => absurd rfl ((answered count answer).2 index)⟩
  · rw [tuned] at either answered
    refine ⟨either.imp_right fun same => ⟨i, denotes, same⟩, fun none => absurd denotes (none i),
      fun count answer j other => ?_⟩
    rw [(answered count answer).1, ← denotes.unique other]
    exact List.getElem?_set_self place
  · rw [misfit] at either
    have same : after = node := or_self_iff.mp either
    exact ⟨Or.inl same, fun _ => same, fun _ _ j other => absurd other (none j)⟩

/-- Wherever a value is written to an `int` port, what is stored is the integer that it is. If it is
none, it is refused when it is set, and when it is loaded or tuned the setting stays the default or
as it was. -/
structure StoredExactly (v : Value) : Prop where
  read : ∀ i, v.asInt? = some i ↔ v.Denotes i
  set : ∀ (g : Graph) (ref : NodeRef) (index : Nat) node port, g.find? ref = some node →
    node.template.internals[index]? = some port → port.type = .int →
    ((g.setInternal ref index v).result = .ok () → ∃ i changed, v.Denotes i ∧
        (g.setInternal ref index v).graph.node? ref.node = some changed ∧
        changed.internals[index]? = some (.int i)) ∧
      (g.isIdle = true → (∀ i, ¬ v.Denotes i) →
        g.setInternal ref index v = g.refuse (.settingMismatch ref.node index .int v.kindName))
  loaded : ∀ id registry config form, (load id registry config form).result = .ok () →
    ∀ (position : Nat) saved t (index : Nat) port default,
      form.nodes[position]? = some saved → registry.get? saved.template = some t →
      t.internals[index]? = some port → t.defaults[index]? = some default → port.type = .int →
      saved.settings[index]? = some v →
      ∃ node, (load id registry config form).graph.node? ⟨position⟩ = some node ∧
        (∀ i, v.Denotes i → node.internals[index]? = some (.int i)) ∧
          ((∀ i, ¬ v.Denotes i) → node.internals[index]? = some default)
  tuned : ∀ (g : Graph) values id node index port name, g.node? id = some node →
    node.tunable? = some (index, port, name) → port.type = .int →
    Dictionary.get? values name = some v →
    ∃ after, (g.applyExports values).graph.node? id = some after ∧
      (after = node ∨ ∃ i, v.Denotes i ∧
        after = { node with internals := node.internals.set index (.int i) }) ∧
      ((∀ i, ¬ v.Denotes i) → after = node) ∧
      ∀ count, (g.applyExports values).result = .ok count → ∀ i, v.Denotes i →
        after.internals[index]? = some (.int i)

/-- Of all values only the whole numbers beyond 64 bits are read as another number, and every other
one is stored exactly or not at all. -/
theorem int_ports_exact (v : Value) :
    ((∀ i, v.asInt? = some i → v.Denotes i) ↔ ¬ v.Beyond) ∧ (¬ v.Beyond → StoredExactly v) := by
  refine ⟨⟨fun same beyond => ?_, fun inside i => (Value.asInt?_iff_denotes inside).mp⟩,
    fun inside => ⟨fun i => Value.asInt?_iff_denotes inside, ?_, ?_, ?_⟩⟩
  · obtain ⟨i, read, changed⟩ := beyond.changed
    exact changed (same i read)
  · intro g ref index node port found atIndex type
    exact setInternal_int found atIndex type inside
  · intro id registry config form answer position saved t index port default atPosition found
      atIndex start type written
    exact load_int answer atPosition found atIndex start type written inside
  · intro g values id node index port name live tunable type meant
    exact applyExports_int live tunable type meant inside

/-- A dial alone, which starts at zero. -/
def dial : Graph := (empty ⟨0⟩ (Registry.declare {} dials) {}).afterAll [.addNode "Dial"]

/-- The double `2 ^ 63`, the first whole number past the integers. -/
def wide : Value := .float (.ofBits 0x43e0000000000000)

/-- A double past the integers is taken as the last of them. -/
theorem int_port_saturates :
    wide.number? = some (2 ^ 63) ∧ (∀ i, ¬ wide.Denotes i) ∧
      (dial.setInternal ⟨⟨0⟩, ⟨0⟩⟩ 1 wide).result = .ok () ∧
      ∃ changed, (dial.setInternal ⟨⟨0⟩, ⟨0⟩⟩ 1 wide).graph.node? ⟨0⟩ = some changed ∧
        changed.internals[1]? = some (.int Int64.maxValue) := by
  have number : wide.number? = some ((2 ^ 63 : ℤ) : ℚ) :=
    Value.number?_of_toInt? (by with_unfolding_all rfl)
  refine ⟨by rw [number, Int.cast_pow, Int.cast_ofNat], fun i denotes => ?_, ?_, ?_⟩
  · have same := Int.cast_inj.mp (Option.some.inj (number.symm.trans denotes))
    have bound := i.toInt_le
    rw [← same] at bound
    exact absurd bound (by decide)
  · with_unfolding_all rfl
  · with_unfolding_all exact ⟨_, rfl, rfl⟩

theorem int_ports_exact_whole :
    ¬ (Value.float 3).Beyond ∧ (Value.float 3).Denotes 3 ∧
      (dial.setInternal ⟨⟨0⟩, ⟨0⟩⟩ 1 (.float 3)).result = .ok () ∧
      ∃ changed, (dial.setInternal ⟨⟨0⟩, ⟨0⟩⟩ 1 (.float 3)).graph.node? ⟨0⟩ = some changed ∧
        changed.internals[1]? = some (.int 3) := by
  have number : (Value.float 3).number? = some ((3 : ℤ) : ℚ) :=
    Value.number?_of_toInt? (by decide +kernel)
  have denotes : (Value.float 3).Denotes 3 := number
  have inside : ¬ (Value.float 3).Beyond := by
    rintro ⟨n, same, outside⟩
    obtain rfl : 3 = n := Int.cast_inj.mp (Option.some.inj (number.symm.trans same))
    exact absurd outside (by decide)
  have answer : (dial.setInternal ⟨⟨0⟩, ⟨0⟩⟩ 1 (.float 3)).result = .ok () := by
    with_unfolding_all rfl
  obtain ⟨node, found, atIndex⟩ : ∃ node, dial.find? ⟨⟨0⟩, ⟨0⟩⟩ = some node ∧
      node.template.internals[1]? = some ⟨"value", .int, none⟩ := by
    with_unfolding_all exact ⟨_, rfl, rfl⟩
  have exactly := (int_ports_exact (.float 3)).2 inside
  obtain ⟨i, changed, other, live, stored⟩ :=
    (exactly.set dial _ 1 node _ found atIndex rfl).1 answer
  rw [other.unique denotes] at stored
  exact ⟨inside, denotes, answer, changed, live, stored⟩

end Graph

end Flowgraph
