import Flowgraph.Proofs.Graph.Refusal

namespace Flowgraph

namespace SavedGraph

variable {registry : Registry} {form : SavedGraph}

/-- The template of the node at a position. -/
def template? (registry : Registry) (form : SavedGraph) (position : Nat) : Option Template :=
  form.nodes[position]?.bind fun saved => registry.get? saved.template

/-- The ends of an edge at which there is no node, the source first. -/
def missingEnds (form : SavedGraph) (edge : SavedEdge) (index : Nat) : List GraphError :=
  ([edge.source, edge.target].filter (form.nodes.length ≤ ·)).map (.missingNode index)

/-- A node of a template that is not registered. -/
def unregistered (registry : Registry) (saved : SavedNode) : List GraphError :=
  if registry.contains saved.template then [] else [.unknownTemplate saved.template]

/-- An index that none of the ports of a node has. Of a node without a template nothing is said. -/
def outside (registry : Registry) (form : SavedGraph) (position : Nat) (side : PortSide)
    (ports : Template → List Port) (index : Nat) : List GraphError :=
  match form.template? registry position with
  | none => []
  | some t =>
    let size := (ports t).length
    if index < size then [] else [.invalidPort ⟨position⟩ side index size]

/-- An input at which one of the edges before ends. -/
def taken (before : List SavedEdge) (edge : SavedEdge) : List GraphError :=
  if before.any fun other => other.target = edge.target ∧ other.input = edge.input then
    [.inputTaken ⟨edge.target⟩ edge.input]
  else []

/-- What is wrong with the ports of edges, each beside those before it. -/
def misfits (registry : Registry) (form : SavedGraph) (before : List SavedEdge) :
    List SavedEdge → List GraphError
  | [] => []
  | edge :: rest =>
    form.outside registry edge.source .output (·.outputs) edge.output ++
      form.outside registry edge.target .input (·.inputs) edge.input ++ taken before edge ++
        misfits registry form (before ++ [edge]) rest

/-- Everything that is wrong with a form, in the order in which it counts. -/
def violations (registry : Registry) (form : SavedGraph) : List GraphError :=
  (form.edges.zipIdx.flatMap fun (edge, index) => form.missingEnds edge index) ++
    form.nodes.flatMap (unregistered registry) ++ misfits registry form [] form.edges

/-- A form with nothing wrong: edges go from nodes to nodes, the templates are registered and have
the ports, and no two edges end at one input. -/
structure WellFormed (registry : Registry) (form : SavedGraph) : Prop where
  ends : ∀ edge ∈ form.edges, edge.source < form.nodes.length ∧ edge.target < form.nodes.length
  known : ∀ saved ∈ form.nodes, ∃ t, registry.get? saved.template = some t
  outputs : ∀ edge ∈ form.edges, ∀ t, form.template? registry edge.source = some t →
    edge.output < t.outputs.length
  inputs : ∀ edge ∈ form.edges, ∀ t, form.template? registry edge.target = some t →
    edge.input < t.inputs.length
  single : form.edges.Pairwise fun a b => a.target = b.target → a.input ≠ b.input

theorem missingEnds_eq_nil {edge : SavedEdge} {index : Nat} :
    form.missingEnds edge index = [] ↔
      edge.source < form.nodes.length ∧ edge.target < form.nodes.length := by
  simp [missingEnds]

theorem unregistered_eq_nil {saved : SavedNode} :
    unregistered registry saved = [] ↔ ∃ t, registry.get? saved.template = some t := by
  unfold unregistered Registry.contains
  cases registry.get? saved.template <;> simp

theorem outside_eq_nil {position : Nat} {side : PortSide} {ports : Template → List Port}
    {index : Nat} :
    form.outside registry position side ports index = [] ↔
      ∀ t, form.template? registry position = some t → index < (ports t).length := by
  unfold outside
  cases form.template? registry position with
  | none => simp
  | some t => simp

theorem taken_eq_nil {before : List SavedEdge} {edge : SavedEdge} :
    taken before edge = [] ↔
      ∀ other ∈ before, other.target = edge.target → other.input ≠ edge.input := by
  simp [taken]

/-- Nothing is wrong with the edges of a form just if their ports are there and no two edges end at
one input, the earlier ones included. -/
theorem misfits_eq_nil {before edges : List SavedEdge} :
    misfits registry form before edges = [] ↔
      (∀ edge ∈ edges,
        form.outside registry edge.source .output (·.outputs) edge.output = [] ∧
          form.outside registry edge.target .input (·.inputs) edge.input = []) ∧
        (∀ other ∈ before, ∀ edge ∈ edges, other.target = edge.target → other.input ≠ edge.input) ∧
          edges.Pairwise fun a b => a.target = b.target → a.input ≠ b.input := by
  induction edges generalizing before with
  | nil => simp [misfits]
  | cons edge rest ih =>
    simp only [misfits, List.append_eq_nil_iff, ih, taken_eq_nil, List.forall_mem_cons,
      List.pairwise_cons, List.forall_mem_append, List.not_mem_nil, false_implies,
      implies_true, and_true]
    constructor
    · rintro ⟨⟨ports, free⟩, others, ⟨old, first⟩, apart⟩
      exact ⟨⟨ports, others⟩, fun other member => ⟨free other member, old other member⟩, first,
        apart⟩
    · rintro ⟨⟨ports, others⟩, old, first, apart⟩
      exact ⟨⟨ports, fun other member => (old other member).1⟩, others,
        ⟨fun other member => (old other member).2, first⟩, apart⟩

theorem allMissingEnds_eq_nil :
    (form.edges.zipIdx.flatMap fun (edge, index) => form.missingEnds edge index) = [] ↔
      ∀ edge ∈ form.edges,
        edge.source < form.nodes.length ∧ edge.target < form.nodes.length := by
  rw [List.flatMap_eq_nil_iff]
  constructor
  · intro none edge member
    obtain ⟨index, read⟩ := List.getElem?_of_mem member
    exact missingEnds_eq_nil.mp (none (edge, index) (List.mk_mem_zipIdx_iff_getElem?.mpr read))
  · rintro inside ⟨edge, index⟩ member
    exact missingEnds_eq_nil.mpr
      (inside edge (List.mem_of_getElem? (List.mk_mem_zipIdx_iff_getElem?.mp member)))

/-- A form is well formed just if it has no violations. -/
theorem violations_eq_nil : form.violations registry = [] ↔ form.WellFormed registry := by
  rw [violations, List.append_eq_nil_iff, List.append_eq_nil_iff, allMissingEnds_eq_nil]
  simp only [List.flatMap_eq_nil_iff, unregistered_eq_nil, misfits_eq_nil, outside_eq_nil]
  constructor
  · rintro ⟨⟨inside, known⟩, ports, _, single⟩
    exact ⟨inside, known, fun edge member => (ports edge member).1,
      fun edge member => (ports edge member).2, single⟩
  · rintro ⟨inside, known, outputs, inputs, single⟩
    exact ⟨⟨inside, known⟩, fun edge member => ⟨outputs edge member, inputs edge member⟩,
      fun other member => absurd member List.not_mem_nil, single⟩

/-- Loading looks first for ends without a node, in the order in which they count. -/
theorem missing?_eq :
    (form.missing?.map fun (edge, index) => GraphError.missingNode edge index) =
      (form.edges.zipIdx.flatMap fun (edge, index) => form.missingEnds edge index).head? := by
  rw [List.head?_flatMap, missing?, List.map_findSome?]
  congr 1
  funext ⟨edge, index⟩
  simp only [Function.comp_apply, missingEnds, List.filter_cons, List.filter_nil,
    decide_eq_true_eq]
  split
  · rfl
  · split <;> rfl

theorem missing?_eq_none :
    form.missing? = none ↔ ∀ edge ∈ form.edges,
      edge.source < form.nodes.length ∧ edge.target < form.nodes.length := by
  rw [← allMissingEnds_eq_nil, ← List.head?_eq_none_iff, ← missing?_eq, Option.map_eq_none_iff]

/-- A form never is to blame for a place that a node has not. -/
theorem isCrash_of_mem_violations {e : GraphError} (member : e ∈ form.violations registry) :
    e.isCrash = false := by
  have outside {position : Nat} {side : PortSide} {ports : Template → List Port} {index : Nat}
      (member : e ∈ form.outside registry position side ports index) : e.isCrash = false := by
    unfold SavedGraph.outside at member
    split at member
    · cases member
    · simp only at member
      split at member
      · cases member
      · cases List.mem_singleton.mp member
        rfl
  have misfits {before edges : List SavedEdge} (member : e ∈ misfits registry form before edges) :
      e.isCrash = false := by
    induction edges generalizing before with
    | nil => cases member
    | cons edge rest ih =>
      simp only [SavedGraph.misfits, List.mem_append] at member
      rcases member with ((output | input) | taken) | later
      · exact outside output
      · exact outside input
      · unfold SavedGraph.taken at taken
        split at taken
        · cases List.mem_singleton.mp taken
          rfl
        · cases taken
      · exact ih later
  simp only [violations, List.mem_append, List.mem_flatMap] at member
  rcases member with (⟨⟨edge, index⟩, _, missing⟩ | ⟨saved, _, unknown⟩) | unfit
  · obtain ⟨position, _, rfl⟩ := List.mem_map.mp missing
    rfl
  · unfold unregistered at unknown
    split at unknown
    · cases unknown
    · cases List.mem_singleton.mp unknown
      rfl
  · exact misfits unfit

end SavedGraph

end Flowgraph
