import Flowgraph.Graph.Saved
import Flowgraph.Proofs.Value.Tagged

namespace Flowgraph

theorem mem_of_mapM {α β : Type} {read : α → Option β} {items : List α} {values : List β}
    (all : items.mapM read = some values) {value : β} (member : value ∈ values) :
    ∃ item ∈ items, read item = some value := by
  induction items generalizing values with
  | nil =>
    cases all
    cases member
  | cons item rest ih =>
    rw [List.mapM_cons] at all
    obtain ⟨first, found, all⟩ := Option.bind_eq_some_iff.mp all
    obtain ⟨others, remaining, same⟩ := Option.bind_eq_some_iff.mp all
    cases same
    rcases List.mem_cons.mp member with rfl | later
    · exact ⟨item, List.mem_cons_self, found⟩
    · obtain ⟨source, there, gives⟩ := ih remaining later
      exact ⟨source, List.mem_cons_of_mem _ there, gives⟩

theorem mapM_map {α β γ : Type} {write : α → β} {read : β → Option γ} (again : α → γ)
    {items : List α} (each : ∀ item ∈ items, read (write item) = some (again item)) :
    (items.map write).mapM read = some (items.map again) := by
  induction items with
  | nil => rfl
  | cons item rest ih =>
    obtain ⟨first, others⟩ := List.forall_mem_cons.mp each
    rw [List.map_cons, List.mapM_cons, first, ih others]
    rfl

theorem map_eq_self {α : Type} {f : α → α} {items : List α} :
    items.map f = items ↔ ∀ item ∈ items, f item = item := by
  have compared : items.map f = items.map id ↔ ∀ item ∈ items, f item = id item :=
    List.map_inj_left
  rwa [List.map_id] at compared

/-- What a list holds that may be left out was read, item by item. -/
theorem read_of_mem {α : Type} {read : Json → Option α} {written : Option Json} {values : List α}
    (all : Json.orDefault? (Json.asList? read) [] written = some values) {value : α}
    (member : value ∈ values) : ∃ j, read j = some value := by
  cases written with
  | none =>
    cases all
    cases member
  | some j =>
    cases j with
    | array items =>
      obtain ⟨item, _, gives⟩ := mem_of_mapM all member
      exact ⟨item, gives⟩
    | _ => cases all

namespace SavedNode

open Value

/-- The tagged value that a setting is taken for, if it looks like one and can be read. -/
def taggedReading? : Json → Option Value
  | .object entries => if looksTagged entries then ofTagged? (.object entries) else none
  | _ => none

/-- What is read where a setting was written. -/
def reread (v : Value) : Value :=
  (taggedReading? v.toLiteral).getD (ofLiteral v.toLiteral)

/-- A readable setting is read as a tagged value if it can be, and as a literal otherwise. -/
theorem settingOfJson?_eq {j : Json} (readable : j.readable = true) :
    settingOfJson? j = some ((taggedReading? j.normalize).getD (ofLiteral j.normalize)) := by
  unfold settingOfJson?
  rw [if_pos readable]
  cases j.normalize with
  | object entries =>
    simp only [taggedReading?]
    split <;> rfl
  | _ => rfl

theorem readable_of_setting {j : Json} {v : Value} (read : settingOfJson? j = some v) :
    j.readable = true := by
  unfold settingOfJson? at read
  split at read
  · assumption
  · cases read

/-- A tagged value is not as deep as the form that it is read from. -/
theorem nested_taggedReading? {j : Json} {v : Value} (read : taggedReading? j = some v) :
    v.Ordered ∧ v.depth < j.depth := by
  unfold taggedReading? at read
  split at read
  · split at read
    · exact nested_ofTagged? read
    · cases read
  · cases read

theorem ordered_setting {j : Json} {v : Value} (read : settingOfJson? j = some v) :
    v.Ordered := by
  rw [settingOfJson?_eq (readable_of_setting read)] at read
  cases tagged : taggedReading? j.normalize with
  | none =>
    rw [tagged] at read
    cases read
    exact ordered_ofLiteral _
  | some other =>
    rw [tagged] at read
    cases read
    exact (nested_taggedReading? tagged).1

/-- A setting that is written as a literal may be taken for a tagged value when it is read again. -/
theorem setting_toLiteral {v : Value} (ordered : v.Ordered) :
    settingOfJson? v.toLiteral = some (reread v) := by
  obtain ⟨readable, normal⟩ := normal_toLiteral ordered
  rw [settingOfJson?_eq readable, normal]
  rfl

/-- A value taken for a tagged one is never the value that was written, since the tagged form of a
value nests deeper than its literal. -/
theorem reread_eq_self {v : Value} (ordered : v.Ordered) :
    reread v = v ↔ v.LiteralSafe ∧ taggedReading? v.toLiteral = none := by
  unfold reread
  cases tagged : taggedReading? v.toLiteral with
  | none =>
    have exact := ofLiteral_toLiteral_iff ordered
    exact ⟨fun back => ⟨exact.mp back, rfl⟩, fun ⟨safe, _⟩ => exact.mpr safe⟩
  | some other =>
    refine ⟨fun same => ?_, fun ⟨_, untagged⟩ => by cases untagged⟩
    have deeper := (nested_taggedReading? tagged).2
    have shallow := depth_toLiteral_le v
    rw [Option.getD_some] at same
    rw [same] at deeper
    omega

def again (node : SavedNode) : SavedNode :=
  { node with settings := node.settings.map reread }

theorem toLiterals_eq_map (items : List Value) : toLiterals items = items.map toLiteral := by
  induction items with
  | nil => rfl
  | cons item rest ih => rw [toLiterals, ih, List.map_cons]

theorem ordered_settings {j : Json} {node : SavedNode} (read : ofJson? j = some node) :
    ∀ v ∈ node.settings, v.Ordered := by
  intro v member
  obtain ⟨fields, _, built⟩ := Option.bind_eq_some_iff.mp read
  split at built
  · obtain ⟨template, _, built⟩ := Option.bind_eq_some_iff.mp built
    obtain ⟨settings, all, same⟩ := Option.bind_eq_some_iff.mp built
    cases same
    obtain ⟨source, gives⟩ := read_of_mem all member
    exact ordered_setting gives
  · cases built

theorem ofJson?_toJson {node : SavedNode} (ordered : ∀ v ∈ node.settings, v.Ordered) :
    ofJson? node.toJson = some node.again := by
  have fields : node.toJson.fields? ["template", "internalValues"] =
      some [some (.string node.template), some (.array (toLiterals node.settings))] := rfl
  have settings : Json.asList? settingOfJson? (.array (toLiterals node.settings)) =
      some (node.settings.map reread) := by
    rw [toLiterals_eq_map]
    exact mapM_map reread fun v member => setting_toLiteral (ordered v member)
  unfold ofJson?
  rw [fields]
  simp only [Option.bind_eq_bind, Option.bind_some, Json.asString?, Json.orDefault?, settings]
  rfl

theorem again_eq_self {node : SavedNode} :
    node.again = node ↔ ∀ v ∈ node.settings, reread v = v := by
  obtain ⟨template, settings⟩ := node
  simp only [again, SavedNode.mk.injEq, true_and]
  exact map_eq_self

end SavedNode

namespace SavedEdge

theorem asNat64?_int {j : Json} {n : Nat} (small : j.asNat64? = some n) :
    Json.asNat64? (.int n) = some n := by
  unfold Json.asNat64? Json.asNatBelow? at small
  split at small
  · split at small
    · rename_i i range
      cases small
      have whole : (i.toNat : Int) = i := Int.toNat_of_nonneg range.1
      rw [whole]
      exact if_pos range
    · cases small
  · cases small

theorem fields_toJson (edge : SavedEdge) : edge.toJson.fields? ["src", "srcOut", "dst", "dstIn"] =
      some [some (.int edge.source), some (.int edge.output), some (.int edge.target),
        some (.int edge.input)] := by
  simp [toJson, Json.fields?, Json.single?]

/-- The ends and slots of an edge that is read fit 64 bits, so the edge can be written. -/
theorem ofJson?_toJson {j : Json} {edge : SavedEdge} (read : ofJson? j = some edge) :
    ofJson? edge.toJson = some edge := by
  unfold ofJson? at read
  simp only [Option.bind_eq_bind, Option.bind_eq_some_iff] at read
  obtain ⟨written, _, built⟩ := read
  split at built
  · obtain ⟨source, sourceRead, output, outputRead, target, targetRead, input, inputRead, same⟩ :=
      by simpa only [Option.bind_eq_some_iff] using built
    cases same
    unfold ofJson?
    rw [fields_toJson, Option.bind_eq_bind, Option.bind_some]
    dsimp only
    rw [asNat64?_int sourceRead, asNat64?_int outputRead, asNat64?_int targetRead,
      asNat64?_int inputRead]
    rfl
  · cases built

end SavedEdge

namespace SavedGraph

theorem sources {doc : Json} {form : SavedGraph} (read : ofJson? doc = some form) :
    (∀ node ∈ form.nodes, ∃ j, SavedNode.ofJson? j = some node) ∧
      ∀ edge ∈ form.edges, ∃ j, SavedEdge.ofJson? j = some edge := by
  obtain ⟨fields, _, built⟩ := Option.bind_eq_some_iff.mp read
  split at built
  · obtain ⟨nodes, nodesRead, built⟩ := Option.bind_eq_some_iff.mp built
    obtain ⟨edges, edgesRead, same⟩ := Option.bind_eq_some_iff.mp built
    cases same
    exact ⟨fun node => read_of_mem nodesRead, fun edge => read_of_mem edgesRead⟩
  · cases built

/-- Writing a form that was read and reading it again keeps templates and edges, and rereads each
setting on its own. -/
theorem ofJson?_toJson {doc : Json} {form : SavedGraph} (read : ofJson? doc = some form) :
    ofJson? form.toJson = some { form with nodes := form.nodes.map SavedNode.again } := by
  obtain ⟨nodeSource, edgeSource⟩ := sources read
  have nodes : (form.nodes.map SavedNode.toJson).mapM SavedNode.ofJson? =
      some (form.nodes.map SavedNode.again) := by
    refine mapM_map SavedNode.again fun node member => ?_
    obtain ⟨j, gives⟩ := nodeSource node member
    exact SavedNode.ofJson?_toJson (SavedNode.ordered_settings gives)
  have edges : (form.edges.map SavedEdge.toJson).mapM SavedEdge.ofJson? = some form.edges := by
    rw [mapM_map id fun edge member => ?_, List.map_id]
    obtain ⟨j, gives⟩ := edgeSource edge member
    exact SavedEdge.ofJson?_toJson gives
  have fields : form.toJson.fields? ["nodes", "edges"] =
      some [some (.array (form.nodes.map SavedNode.toJson)),
        some (.array (form.edges.map SavedEdge.toJson))] := rfl
  unfold ofJson?
  rw [fields]
  simp only [Option.bind_eq_bind, Option.bind_some, Json.orDefault?, Json.asList?, nodes, edges]

/-- A form comes back from what is written for it exactly if every setting is literal safe and its
literal is not taken for a tagged value. Its templates and edges always do. -/
theorem reread_exact {doc : Json} {form : SavedGraph} (read : ofJson? doc = some form) :
    (∃ again, ofJson? form.toJson = some again ∧ again.edges = form.edges ∧
        again.nodes.map (·.template) = form.nodes.map (·.template)) ∧
      (ofJson? form.toJson = some form ↔ ∀ node ∈ form.nodes, ∀ v ∈ node.settings,
        v.LiteralSafe ∧ SavedNode.taggedReading? v.toLiteral = none) := by
  have written := ofJson?_toJson read
  refine ⟨⟨_, written, rfl, ?_⟩, ?_⟩
  · rw [List.map_map]
    rfl
  · have same : ({ form with nodes := form.nodes.map SavedNode.again } : SavedGraph) = form ↔
        ∀ node ∈ form.nodes, node.again = node := by
      obtain ⟨nodes, edges⟩ := form
      simp only [SavedGraph.mk.injEq, and_true]
      exact map_eq_self
    obtain ⟨nodeSource, _⟩ := sources read
    rw [written, Option.some.injEq, same]
    refine forall₂_congr fun node member => ?_
    obtain ⟨j, gives⟩ := nodeSource node member
    rw [SavedNode.again_eq_self]
    refine forall₂_congr fun v setting => ?_
    exact SavedNode.reread_eq_self (SavedNode.ordered_settings gives v setting)

/-- Tagged settings, and an object that only looks tagged. -/
def tuned : Json :=
  .object [("nodes", .array [.object [("template", .string "ExportFloat"), ("internalValues", .array
    [.object [("kind", .string "string"), ("value", .string "speed")],
     .object [("kind", .string "float"), ("value", .float 2.5)],
     .object [("kind", .string "note")]])]]),
   ("edges", .array [.object [("src", .int 0), ("srcOut", .int 0), ("dst", .int 0),
     ("dstIn", .int 1)]])]

def tunedForm : SavedGraph where
  nodes := [⟨"ExportFloat", [.string "speed", .float 2.5, .object none [("kind", .string "note")]]⟩]
  edges := [⟨0, 0, 0, 1⟩]

theorem reread_exact_tuned :
    ofJson? tuned = some tunedForm ∧ ofJson? tunedForm.toJson = some tunedForm := by
  have read : ofJson? tuned = some tunedForm := by rfl
  obtain ⟨_, exact⟩ := reread_exact read
  refine ⟨read, exact.mpr fun node member v setting => ?_⟩
  cases List.mem_singleton.mp member
  simp only [List.mem_cons, List.not_mem_nil, or_false] at setting
  rcases setting with rfl | rfl | rfl
  · exact ⟨trivial, rfl⟩
  · have finite : (Value.float 2.5).LiteralSafe := by
      unfold Value.LiteralSafe
      decide
    exact ⟨finite, by rfl⟩
  · refine ⟨⟨fun entry field => ?_, fun typed => absurd rfl typed, trivial, trivial⟩, by rfl⟩
    cases List.mem_singleton.mp field
    decide

/-- A node with two settings that do not come back: an object whose type name is no string, and a
tagged object with a field `kind`. -/
def drifting : Json :=
  .object [("nodes", .array [.object [("template", .string "Keep"), ("internalValues", .array
    [.object [("kind", .string "null"), ("__type__", .int 5)],
     .object [("kind", .string "object"), ("value", .object [("fields", .object
       [("kind", .object [("kind", .string "string"), ("value", .string "null")])])])]])]])]

def drifted : SavedGraph where
  nodes := [⟨"Keep", [.object none [("kind", .string "null")],
    .object none [("kind", .string "null")]]⟩]

theorem reread_drifts :
    ∃ form again, ofJson? drifting = some form ∧ ofJson? form.toJson = some again ∧ again ≠ form := by
  have read : ofJson? drifting = some drifted := by rfl
  have reread : ofJson? drifted.toJson = some { nodes := [⟨"Keep", [.null, .null]⟩] } := by rfl
  refine ⟨_, _, read, reread, fun same => ?_⟩
  simp [drifted] at same

end SavedGraph

end Flowgraph
