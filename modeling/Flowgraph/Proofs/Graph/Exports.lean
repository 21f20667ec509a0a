import Mathlib.Data.List.Basic
import Flowgraph.Proofs.Graph.Formed
import Flowgraph.Proofs.Graph.Replies

namespace Flowgraph

/-- What is to be written for a name and where: the port right after the name says what it stores of
the value that is meant. -/
def Template.override? (t : Template) (values : Dictionary Value) (name : String) :
    Option (Nat × Value) := do
  let position ← t.internalIndex? Export.namePort
  let port ← t.internals[position + 1]?
  let v ← Dictionary.get? values name
  (port.type.coerce? v).map (position + 1, ·)

/-- The export with the value that is meant for it. -/
def Export.overridden (values : Dictionary Value) (t : Template) (e : Export) : Export :=
  match t.override? values e.name with
  | some (_, stored) => { e with value := stored }
  | none => e

namespace Node

variable {node : Node} {e : Export} {values : Dictionary Value} {position index : Nat}
  {stored : Value}

/-- What is to be written to a node and where. -/
def override? (values : Dictionary Value) (node : Node) : Option (Nat × Value) :=
  node.export?.bind fun e => node.template.override? values e.name

/-- The node with the value that is meant for it. -/
def overridden (values : Dictionary Value) (node : Node) : Node :=
  match node.override? values with
  | some (index, stored) => { node with internals := node.internals.set index stored }
  | none => node

/-- There is a value for each setting of the template. -/
def Filled (node : Node) : Prop := node.internals.length = node.template.internals.length

/-- What a node shows as its export, if its name stands in the given place. -/
structure Shows (node : Node) (e : Export) (position : Nat) : Prop where
  exported : node.template.exported = true
  found : node.template.internalIndex? Export.namePort = some position
  name : node.internals[position]?.bind Value.asString? = some e.name
  value : e.value = node.internals[position + 1]?.getD .null
  template : e.template = node.template.name
  settings : e.settings =
    ((node.template.internals.zip node.internals).drop (position + 2)).map fun (port, value) =>
      (port.name, value)

theorem export?_eq_some : node.export? = some e ↔ ∃ position, node.Shows e position := by
  unfold export?
  constructor
  · intro shown
    split at shown
    · cases shown
    rename_i exported
    obtain ⟨position, found, shown⟩ := Option.bind_eq_some_iff.mp shown
    obtain ⟨named, atPosition, shown⟩ := Option.bind_eq_some_iff.mp shown
    obtain ⟨name, text, same⟩ := Option.bind_eq_some_iff.mp shown
    cases same
    exact ⟨position, by simpa using exported, found,
      Option.bind_eq_some_iff.mpr ⟨named, atPosition, text⟩, rfl, rfl, rfl⟩
  · rintro ⟨position, shows⟩
    obtain ⟨named, atPosition, text⟩ := Option.bind_eq_some_iff.mp shows.name
    rw [if_neg (by simp [shows.exported])]
    simp only [shows.found, atPosition, text, Option.bind_eq_bind, Option.bind_some, ← shows.value,
      ← shows.template, ← shows.settings]

theorem Shows.tunable? (shows : node.Shows e position) :
    node.tunable? =
      node.template.internals[position + 1]?.map fun port => (position + 1, port, e.name) := by
  obtain ⟨named, atPosition, text⟩ := Option.bind_eq_some_iff.mp shows.name
  unfold Node.tunable?
  rw [if_neg (by simp [shows.exported])]
  simp only [shows.found, atPosition, text, Option.bind_eq_bind, Option.bind_some]
  cases node.template.internals[position + 1]? <;> rfl

/-- What can be tuned is shown. -/
theorem tunable?_eq_none (hidden : node.export? = none) : node.tunable? = none := by
  unfold export? at hidden
  unfold Node.tunable?
  split
  · rfl
  rename_i exported
  rw [if_neg exported] at hidden
  cases found : node.template.internalIndex? Export.namePort with
  | none => rfl
  | some position =>
    cases atPosition : node.internals[position]? with
    | none => simp [atPosition]
    | some named =>
      cases text : named.asString? with
      | none => simp [atPosition, text]
      | some name => simp [found, atPosition, text] at hidden

/-- What tuning writes is the given value in the form of its port, into the place after the name. -/
theorem Shows.written (shows : node.Shows e position) :
    node.template.override? values e.name =
      node.template.internals[position + 1]?.bind fun port =>
        (Dictionary.get? values e.name).bind fun v =>
          (port.type.coerce? v).map (position + 1, ·) := by
  simp only [Template.override?, shows.found, Option.bind_eq_bind, Option.bind_some]

/-- What is written goes to the place right after the name, which the node has. -/
theorem Shows.place (shows : node.Shows e position) (filled : node.Filled)
    (written : node.template.override? values e.name = some (index, stored)) :
    index = position + 1 ∧ position + 1 < node.internals.length := by
  rw [shows.written] at written
  obtain ⟨port, atPort, written⟩ := Option.bind_eq_some_iff.mp written
  obtain ⟨_, _, written⟩ := Option.bind_eq_some_iff.mp written
  obtain ⟨_, _, same⟩ := Option.map_eq_some_iff.mp written
  cases same
  exact ⟨rfl, filled ▸ (List.getElem?_eq_some_iff.mp atPort).1⟩

/-- Tuning that misses no place writes what is meant for the node. -/
theorem tune_of_placed (placed : (node.tune values).missing? = none) :
    (node.tune values).node node = node.overridden values ∧
      (node.tune values).isTuned = (node.override? values).isSome := by
  unfold Node.tune at placed ⊢
  unfold Node.overridden Node.override?
  cases shown : node.export? with
  | none =>
    rw [tunable?_eq_none shown]
    exact ⟨rfl, rfl⟩
  | some e =>
    obtain ⟨position, shows⟩ := export?_eq_some.mp shown
    rw [shows.tunable?] at placed ⊢
    rw [Option.bind_some, shows.written]
    cases atPort : node.template.internals[position + 1]? with
    | none => exact ⟨rfl, rfl⟩
    | some port =>
      simp only [atPort, Option.map_some, Option.bind_some] at placed ⊢
      cases meant : Dictionary.get? values e.name with
      | none => exact ⟨rfl, rfl⟩
      | some v =>
        simp only [meant, Option.bind_some] at placed ⊢
        cases coerced : port.type.coerce? v with
        | none => exact ⟨rfl, rfl⟩
        | some stored =>
          by_cases place : position + 1 < node.internals.length
          · simp only [withInternal?, if_pos place]
            exact ⟨rfl, rfl⟩
          · simp only [coerced, withInternal?, if_neg place] at placed
            cases placed

/-- Tuning never misses a place in a node that has a value for each setting. -/
theorem Filled.placed (filled : node.Filled) (values : Dictionary Value) :
    (node.tune values).missing? = none := by
  unfold Node.tune
  split
  · rfl
  rename_i index port name tunable
  have place : index < node.internals.length :=
    filled ▸ (List.getElem?_eq_some_iff.mp (port_of_tunable? tunable)).1
  split
  · rfl
  split
  · rfl
  rw [withInternal?, if_pos place]
  rfl

/-- Writing the value changes what is shown in nothing but the value. -/
theorem Shows.set (shows : node.Shows e position) (place : position + 1 < node.internals.length)
    (stored : Value) :
    Shows { node with internals := node.internals.set (position + 1) stored }
      { e with value := stored } position where
  exported := shows.exported
  found := shows.found
  name := by
    rw [List.getElem?_set_ne (by omega)]
    exact shows.name
  value := by rw [List.getElem?_set_self place, Option.getD_some]
  template := shows.template
  settings := by
    -- the settings that are shown are those after the place
    have after : position + 1 < position + 2 := by omega
    simp only [List.zip, List.drop_zipWith, List.drop_set_of_lt after]
    simpa only [List.zip, List.drop_zipWith] using shows.settings

/-- Tuning a node changes the value that its export shows, and nothing beside it. -/
theorem Filled.export?_overridden (filled : node.Filled) (values : Dictionary Value) :
    (node.overridden values).export? =
      node.export?.map (Export.overridden values node.template) := by
  unfold Node.overridden Node.override?
  cases shown : node.export? with
  | none => exact shown
  | some e =>
    obtain ⟨position, shows⟩ := export?_eq_some.mp shown
    rw [Option.bind_some, Option.map_some, Export.overridden]
    cases written : node.template.override? values e.name with
    | none => exact shown
    | some write =>
      obtain ⟨index, stored⟩ := write
      obtain ⟨rfl, place⟩ := shows.place filled written
      exact export?_eq_some.mpr ⟨position, shows.set place stored⟩

theorem template_overridden (values : Dictionary Value) (node : Node) :
    (node.overridden values).template = node.template := by
  unfold overridden
  split <;> rfl

theorem Filled.overridden (filled : node.Filled) (values : Dictionary Value) :
    (node.overridden values).Filled := by
  unfold Filled at filled ⊢
  rw [template_overridden]
  unfold Node.overridden
  split
  · rw [List.length_set]
    exact filled
  · exact filled

/-- What is to be written does not depend on what was written before. -/
theorem Filled.override?_overridden (filled : node.Filled) (values : Dictionary Value) :
    (node.overridden values).override? values = node.override? values := by
  rw [Node.override?, filled.export?_overridden, template_overridden, Option.bind_map]
  congr 1
  funext e
  simp only [Function.comp_apply, Export.overridden]
  split <;> rfl

/-- Tuning a node twice is tuning it once, since its name is not touched and a stored form is taken
as it is. -/
theorem Filled.overridden_idem (filled : node.Filled) (values : Dictionary Value) :
    (node.overridden values).overridden values = node.overridden values := by
  have same := filled.override?_overridden values
  rw [Node.overridden, same]
  unfold Node.overridden
  split
  · simp only [List.set_set]
  · rfl

end Node

namespace Graph

variable {g : Graph} {values : Dictionary Value}

/-- The nodes that have an export, each with it, oldest first. -/
def exporting (g : Graph) : List (Node × Export) :=
  g.nodeList.filterMap fun node => node.export?.map (node, ·)

/-- The graph with each value that is meant for one of its exports. -/
def overridden (values : Dictionary Value) (g : Graph) : Graph :=
  { g with nodes := g.nodes.map (·.map (Node.overridden values)) }

/-- How many exports a value is written to. -/
def overrides (values : Dictionary Value) (g : Graph) : Nat :=
  g.exporting.countP fun (node, e) => (node.template.override? values e.name).isSome

theorem exports_eq_map (g : Graph) : g.exports = g.exporting.map (·.2) := by
  simp only [exports, exporting, List.map_filterMap, Option.map_map, Function.comp_def,
    Option.map_id']

theorem overrides_eq (values : Dictionary Value) (g : Graph) :
    g.overrides values = g.nodeList.countP fun node => (node.override? values).isSome := by
  rw [overrides, exporting, List.countP_filterMap]
  congr 1
  funext node
  unfold Node.override?
  cases node.export? <;> rfl

theorem mapNodes_congr {change other : Node → Node}
    (same : ∀ node ∈ g.nodeList, change node = other node) :
    g.nodes.map (·.map change) = g.nodes.map (·.map other) := by
  refine Array.map_congr_left fun slot member => Option.map_congr fun node full => same node ?_
  exact List.mem_filterMap.mpr ⟨slot, Array.mem_toList_iff.mpr member, full⟩

theorem firstMissing?_of_filled (filled : ∀ node ∈ g.nodeList, node.Filled)
    (values : Dictionary Value) : g.firstMissing? values = none := by
  refine List.findSome?_eq_none_iff.mpr fun node member => ?_
  rw [(filled node member).placed, Option.map_none]

/-- Where no place is missing, tuning counts the nodes that it writes to and changes just these. -/
theorem applyExports_of_placed (idle : g.phase = .idle) (placed : g.firstMissing? values = none) :
    (g.applyExports values).result = .ok (g.overrides values) ∧
      (g.applyExports values).graph = g.overridden values := by
  have free : g.isIdle = true := by simp [isIdle, idle]
  have tune (node : Node) (member : node ∈ g.nodeList) :=
    Node.tune_of_placed
      (Option.map_eq_none_iff.mp (List.findSome?_eq_none_iff.mp placed node member))
  have nodes := mapNodes_congr fun node member => (tune node member).1
  have count : (g.nodeList.countP fun node => (node.tune values).isTuned) = g.overrides values := by
    rw [overrides_eq]
    refine List.countP_congr fun node member => ?_
    rw [(tune node member).2]
  rw [applyExports, whenIdle_of_idle free, placed]
  simp only [tuneWhere, accept, if_true, nodes, count, overridden, and_self]

theorem exporting_overridden (filled : ∀ node ∈ g.nodeList, node.Filled)
    (values : Dictionary Value) :
    (g.overridden values).exporting =
      g.exporting.map fun (node, e) =>
        (node.overridden values, e.overridden values node.template) := by
  rw [overridden, exporting, nodeList_mapNodes, List.filterMap_map, exporting, List.map_filterMap]
  refine List.filterMap_congr fun node member => ?_
  rw [Function.comp_apply, (filled node member).export?_overridden, Option.map_map, Option.map_map]
  rfl

theorem overridden_idem (filled : ∀ node ∈ g.nodeList, node.Filled) (values : Dictionary Value) :
    (g.overridden values).overridden values = g.overridden values := by
  have same := mapNodes_congr fun node member => (filled node member).overridden_idem values
  simp only [overridden, Array.map_map, Option.map_map, Function.comp_def] at same ⊢
  rw [same]

theorem overrides_overridden (filled : ∀ node ∈ g.nodeList, node.Filled)
    (values : Dictionary Value) : (g.overridden values).overrides values = g.overrides values := by
  rw [overrides_eq, overrides_eq, overridden, nodeList_mapNodes, List.countP_map]
  refine List.countP_congr fun node member => ?_
  rw [Function.comp_apply, (filled node member).override?_overridden]

/-- Templates with a default for each setting make nodes that never lack a value. -/
theorem Reachable.filled (reach : g.Reachable)
    (full : ∀ t ∈ g.registry.templates, t.defaults.length = t.internals.length) :
    ∀ node ∈ g.nodeList, node.Filled := by
  intro node member
  obtain ⟨id, live⟩ := mem_nodeList.mp member
  exact (reach.known live).2.length.trans (full _ (reach.registered live))

/-- Tuning an idle graph writes each value to the exports that it is meant for and that take it, and
counts them. Nothing else changes, neither in the graph nor in what is shown of it, and tuning again
with the same values changes nothing at all. -/
theorem applyExports_exact (reach : g.Reachable) (idle : g.phase = .idle)
    (full : ∀ t ∈ g.registry.templates, t.defaults.length = t.internals.length)
    (values : Dictionary Value) :
    (g.applyExports values).result = .ok (g.overrides values) ∧
      (g.applyExports values).graph = g.overridden values ∧
      g.exports = g.exporting.map (fun (_, e) => e) ∧
      (g.overridden values).exports =
        g.exporting.map (fun (node, e) => e.overridden values node.template) ∧
      ((g.overridden values).applyExports values).result = .ok (g.overrides values) ∧
      ((g.overridden values).applyExports values).graph = g.overridden values := by
  have filled := reach.filled full
  obtain ⟨result, graph⟩ := applyExports_of_placed idle (firstMissing?_of_filled filled values)
  have still : ∀ node ∈ (g.overridden values).nodeList, node.Filled := by
    rw [overridden, nodeList_mapNodes]
    exact List.forall_mem_map.mpr fun node member => (filled node member).overridden values
  obtain ⟨again, same⟩ := applyExports_of_placed (g := g.overridden values) idle
    (firstMissing?_of_filled still values)
  rw [overrides_overridden filled] at again
  rw [overridden_idem filled] at same
  refine ⟨result, graph, g.exports_eq_map, ?_, again, same⟩
  rw [exports_eq_map, exporting_overridden filled, List.map_map]
  rfl

/-- Two dials for the speed, and one of another name between them. -/
def panel : Graph :=
  (empty ⟨0⟩ (Registry.declare {} dials) {}).afterAll
    [.addNode "Dial", .addNode "Dial", .setInternal ⟨⟨0⟩, ⟨1⟩⟩ 0 (.string "depth"),
      .addNode "Pair", .addNode "Dial"]

/-- Both dials for the speed take the number, and the other one takes no text. -/
theorem applyExports_exact_panel :
    panel.Reachable ∧ panel.phase = .idle ∧
      (∀ t ∈ panel.registry.templates, t.defaults.length = t.internals.length) ∧
      let values := [("depth", .string "low"), ("speed", .float 3)]
      (panel.applyExports values).result = .ok 2 ∧
        (panel.applyExports values).graph.exports.map (fun e => (e.name, e.value)) =
          [("speed", .int 3), ("depth", .int 0), ("speed", .int 3)] ∧
        ((panel.applyExports values).graph.applyExports values).result = .ok 2 := by
  have reach : panel.Reachable := (Reachable.empty _ _ _).afterAll _
  have full : ∀ t ∈ panel.registry.templates, t.defaults.length = t.internals.length := by
    decide +kernel
  obtain ⟨result, graph, _, exports, again, _⟩ := applyExports_exact reach rfl full
    [("depth", .string "low"), ("speed", .float 3)]
  refine ⟨reach, rfl, full, result, ?_, ?_⟩
  · rw [graph, exports]
    rfl
  · rw [graph]
    exact again

end Graph

end Flowgraph
