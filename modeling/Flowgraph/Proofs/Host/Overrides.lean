import Mathlib.Data.List.Dedup
import Flowgraph.Host.Run
import Flowgraph.Proofs.Graph.Exports
import Flowgraph.Template.Builtin

namespace Flowgraph

namespace Graph

variable {g : Graph} {values : Dictionary Value}

/-- The names under which values are written, oldest node first. -/
def written (values : Dictionary Value) (g : Graph) : List String :=
  (g.exporting.filter fun (node, e) => (node.template.override? values e.name).isSome).map
    fun (_, e) => e.name

/-- Each node that is tuned takes one value. -/
theorem length_written (values : Dictionary Value) (g : Graph) :
    (g.written values).length = g.overrides values := by
  rw [written, List.length_map, overrides, List.countP_eq_length_filter]

theorem mem_keys_of_mem_written {name : String} (member : name ∈ g.written values) :
    name ∈ Dictionary.keys values := by
  obtain ⟨⟨node, e⟩, kept, rfl⟩ := List.mem_map.mp member
  obtain ⟨write, taken⟩ := Option.isSome_iff_exists.mp (List.mem_filter.mp kept).2
  obtain ⟨_, _, taken⟩ := Option.bind_eq_some_iff.mp taken
  obtain ⟨_, _, taken⟩ := Option.bind_eq_some_iff.mp taken
  obtain ⟨v, meant, _⟩ := Option.bind_eq_some_iff.mp taken
  exact List.mem_map.mpr ⟨_, Dictionary.mem_of_get? meant, rfl⟩

/-- One graph does not know whether a name matches nothing. -/
theorem not_noticed_applyExports (g : Graph) (values : Dictionary Value) :
    Notice.unmatchedOverrides ∉ (g.applyExports values).notices := by
  have tuned (holds : Node → Bool) :
      Notice.unmatchedOverrides ∉ (g.tuneWhere holds values).notices := by
    intro member
    obtain ⟨node, _, noticed⟩ := List.mem_filterMap.mp member
    unfold Tuning.notice? at noticed
    split at noticed <;> cases noticed
  unfold applyExports
  cases idle : g.isIdle with
  | false =>
    rw [whenIdle_of_busy idle]
    simp
  | true =>
    rw [whenIdle_of_idle idle]
    split
    · exact tuned _
    · exact tuned _

end Graph

namespace Behavior

variable {b : Behavior} {graphs : List Graph} {values : Dictionary Value}

/-- The names under which values are written to the graphs. -/
def written (values : Dictionary Value) (b : Behavior) : List String :=
  b.graphs.flatMap (Graph.written values)

/-- The names that are written to no node of any graph. -/
def unmatched (values : Dictionary Value) (b : Behavior) : List String :=
  (Dictionary.keys values).filter (· ∉ b.written values)

/-- It is noticed that there are such names. -/
def Warns (b : Behavior) (values : Dictionary Value) : Prop :=
  Notice.unmatchedOverrides ∈ (b.applyExports values).notices

/-- Every value that is to be written finds a place. -/
def Placed (values : Dictionary Value) (graphs : List Graph) : Prop :=
  ∀ g ∈ graphs, g.firstMissing? values = none

/-- Reachable graphs lack a place only where a template has too few defaults. -/
theorem placed_of_reachable (reach : ∀ g ∈ graphs, g.Reachable)
    (full : ∀ g ∈ graphs, ∀ t ∈ g.registry.templates, t.defaults.length = t.internals.length) :
    Placed values graphs := fun g member =>
  Graph.firstMissing?_of_filled ((reach g member).filled (full g member)) values

/-- No graph by itself notices that a name tunes nothing; only the comparison of the counts does. -/
theorem not_noticed_tuneGraphs (values : Dictionary Value) (graphs : List Graph) :
    Notice.unmatchedOverrides ∉ (tuneGraphs values graphs).notices := by
  induction graphs with
  | nil => exact List.not_mem_nil
  | cons g rest ih =>
    unfold tuneGraphs
    simp only
    split
    · exact g.not_noticed_applyExports values
    · exact fun member =>
        (List.mem_append.mp member).elim (g.not_noticed_applyExports values) ih

theorem tuneGraphs_of_placed (idle : ∀ g ∈ graphs, g.phase = .idle)
    (placed : Placed values graphs) :
    (tuneGraphs values graphs).result = .ok (graphs.flatMap (Graph.written values)).length ∧
      (tuneGraphs values graphs).graphs = graphs.map (Graph.overridden values) := by
  induction graphs with
  | nil => exact ⟨rfl, rfl⟩
  | cons g rest ih =>
    obtain ⟨idleHere, idleRest⟩ := List.forall_mem_cons.mp idle
    obtain ⟨placedHere, placedRest⟩ := List.forall_mem_cons.mp placed
    obtain ⟨result, graph⟩ := Graph.applyExports_of_placed idleHere placedHere
    obtain ⟨results, graphs⟩ := ih idleRest placedRest
    simp only [tuneGraphs, result, graph, results, graphs, List.flatMap_cons, List.length_append,
      Graph.length_written, List.map_cons, Except.map, and_self]

/-- A value that finds no place in its node ends the call. -/
theorem tuneGraphs_of_misplaced (idle : ∀ g ∈ graphs, g.phase = .idle)
    (misplaced : ¬ Placed values graphs) : ∃ e, (tuneGraphs values graphs).result = .error e := by
  induction graphs with
  | nil => exact absurd (fun _ member => (by cases member)) misplaced
  | cons g rest ih =>
    obtain ⟨idleHere, idleRest⟩ := List.forall_mem_cons.mp idle
    have free : g.isIdle = true := by simp [Graph.isIdle, idleHere]
    cases missing : g.firstMissing? values with
    | some place =>
      have refused : (g.applyExports values).result =
          .error (.missingSetting place.1 place.2) := by
        rw [Graph.applyExports, Graph.whenIdle_of_idle free, missing]
      refine ⟨.missingSetting place.1 place.2, ?_⟩
      simp only [tuneGraphs, refused]
    | none =>
      obtain ⟨e, later⟩ := ih idleRest fun placed =>
        misplaced (List.forall_mem_cons.mpr ⟨missing, placed⟩)
      obtain ⟨result, _⟩ := Graph.applyExports_of_placed idleHere missing
      refine ⟨e, ?_⟩
      simp only [tuneGraphs, result, later, Except.map]

/-- Each name is written, once or more often, or to no node. -/
theorem length_dedup_written (sorted : Dictionary.Sorted values) (b : Behavior) :
    (b.written values).dedup.length + (b.unmatched values).length = values.length := by
  have distinct := sorted.nodup_keys
  have known : ∀ name ∈ b.written values, name ∈ Dictionary.keys values := by
    intro name member
    obtain ⟨g, _, inGraph⟩ := List.mem_flatMap.mp member
    exact Graph.mem_keys_of_mem_written inGraph
  have same : (b.written values).dedup.Perm
      ((Dictionary.keys values).filter (· ∈ b.written values)) := by
    refine (List.perm_ext_iff_of_nodup (List.nodup_dedup _) (distinct.filter _)).mpr fun name => ?_
    rw [List.mem_dedup, List.mem_filter, decide_eq_true_iff]
    exact ⟨fun member => ⟨known name member, member⟩, And.right⟩
  have parts := List.length_eq_length_filter_add (l := Dictionary.keys values)
    (fun name => decide (name ∈ b.written values))
  rw [same.length_eq, unmatched]
  simp only [Dictionary.keys, List.length_map, decide_not] at parts ⊢
  exact parts.symm

/-- What is compared is how many values were written, repetitions counted. -/
theorem warns_of_placed (idle : ∀ g ∈ b.graphs, g.phase = .idle) (named : values ≠ [])
    (placed : Placed values b.graphs) :
    (b.applyExports values).result = .ok (b.written values).length ∧
      (b.applyExports values).graphs = b.graphs.map (Graph.overridden values) ∧
      (b.Warns values ↔ (b.written values).length < values.length) := by
  obtain ⟨result, graphs⟩ : (tuneGraphs values b.graphs).result = .ok (b.written values).length ∧
    _ := tuneGraphs_of_placed idle placed
  have silent := not_noticed_tuneGraphs values b.graphs
  have some : values.isEmpty = false := by simpa using named
  unfold Warns applyExports
  simp only [some, Bool.false_eq_true, if_false, result]
  by_cases fewer : (b.written values).length < values.length
  · rw [if_pos fewer]
    exact ⟨rfl, graphs, iff_of_true (List.mem_append_right _ (List.mem_singleton_self _)) fewer⟩
  · rw [if_neg fewer]
    exact ⟨result, graphs, iff_of_false silent fewer⟩

/-- A graph in which a place is missing ends the call with an error and without the notice. -/
theorem refused_of_misplaced (idle : ∀ g ∈ b.graphs, g.phase = .idle) (named : values ≠ [])
    (misplaced : ¬ Placed values b.graphs) :
    (∃ e, (b.applyExports values).result = .error e) ∧ ¬ b.Warns values := by
  obtain ⟨e, refused⟩ := tuneGraphs_of_misplaced idle misplaced
  have some : values.isEmpty = false := by simpa using named
  unfold Warns applyExports
  simp only [some, Bool.false_eq_true, if_false, refused]
  exact ⟨⟨e, rfl⟩, not_noticed_tuneGraphs values b.graphs⟩

/-- It is noticed that a name was written to no node exactly if such names outnumber the repeated
writes of others. So where no name is written twice, it is noticed whenever there is such a name,
and it is never noticed without one. A value that finds no place in its node is an error in itself,
and then nothing is noticed. -/
theorem unmatched_noticed (idle : ∀ g ∈ b.graphs, g.phase = .idle)
    (sorted : Dictionary.Sorted values) (named : values ≠ []) :
    (Placed values b.graphs →
      (b.applyExports values).result = .ok (b.written values).length ∧
        (b.applyExports values).graphs = b.graphs.map (Graph.overridden values) ∧
        (b.Warns values ↔
          (b.written values).length <
            (b.written values).dedup.length + (b.unmatched values).length) ∧
        ((b.written values).Nodup → (b.Warns values ↔ b.unmatched values ≠ []))) ∧
      (¬ Placed values b.graphs →
        (∃ e, (b.applyExports values).result = .error e) ∧ ¬ b.Warns values) ∧
      (b.Warns values → b.unmatched values ≠ []) := by
  have parts := length_dedup_written sorted b
  have repeated := (List.dedup_sublist (b.written values)).length_le
  have some : b.unmatched values ≠ [] ↔ 0 < (b.unmatched values).length :=
    List.length_pos_iff.symm
  refine ⟨fun placed => ?_, refused_of_misplaced idle named, fun warned => ?_⟩
  · obtain ⟨result, graphs, warned⟩ := warns_of_placed idle named placed
    refine ⟨result, graphs, by rw [warned, parts], fun once => ?_⟩
    rw [List.Nodup.dedup once] at parts
    rw [warned, some]
    omega
  · by_cases placed : Placed values b.graphs
    · obtain ⟨_, _, fewer⟩ := warns_of_placed idle named placed
      have counted := fewer.mp warned
      rw [some]
      omega
    · exact absurd warned (refused_of_misplaced idle named placed).2

/-- Exported numbers of the given names. -/
def gauges (names : List String) : Graph :=
  (Graph.empty ⟨0⟩ Registry.builtin {}).afterAll <|
    names.zipIdx.flatMap fun (name, slot) =>
      [.addNode "ExportFloat", .setInternal ⟨⟨0⟩, ⟨slot⟩⟩ 0 (.string name)]

theorem reachable_gauges (names : List String) : (gauges names).Reachable :=
  (Graph.Reachable.empty _ _ _).afterAll _

/-- The text that is meant for the depth is refused, and this is noticed. -/
theorem unmatched_noticed_refused :
    let b : Behavior := ⟨[gauges ["speed"], gauges ["depth"]]⟩
    let values : Dictionary Value := [("depth", .string "low"), ("speed", .float 4)]
    (∀ g ∈ b.graphs, g.phase = .idle) ∧ Dictionary.Sorted values ∧ values ≠ [] ∧
      Placed values b.graphs ∧ (b.written values).Nodup ∧ b.unmatched values = ["depth"] ∧
      (b.applyExports values).result = .ok 1 ∧ b.Warns values := by
  intro b values
  have idle : ∀ g ∈ b.graphs, g.phase = .idle := by decide +kernel
  have sorted : Dictionary.Sorted values :=
    List.pairwise_pair.mpr (by decide : "depth" < "speed")
  have reach : ∀ g ∈ b.graphs, g.Reachable := by simp [b, reachable_gauges]
  have placed : Placed values b.graphs := placed_of_reachable reach (by decide +kernel)
  have written : b.written values = ["speed"] := by decide +kernel
  have unmatched : b.unmatched values = ["depth"] := by decide +kernel
  have once : (b.written values).Nodup := by
    rw [written]
    exact List.nodup_singleton _
  obtain ⟨done, _, _⟩ := unmatched_noticed idle sorted (by simp [values])
  obtain ⟨result, _, _, noticed⟩ := done placed
  rw [written] at result
  exact ⟨idle, sorted, by simp [values], placed, once, unmatched, result,
    (noticed once).mpr (by simp [unmatched])⟩

/-- Two nodes of one name make up for a name that no node has. -/
theorem unmatched_unnoticed :
    let b : Behavior := ⟨[gauges ["speed", "speed"]]⟩
    let values : Dictionary Value := [("speed", .float 4), ("unused", .float 1)]
    (∀ g ∈ b.graphs, g.Reachable ∧ g.phase = .idle) ∧ Dictionary.Sorted values ∧ values ≠ [] ∧
      (b.applyExports values).result = .ok 2 ∧ b.unmatched values = ["unused"] ∧
      ¬ b.Warns values := by
  intro b values
  have idle : ∀ g ∈ b.graphs, g.phase = .idle := by decide +kernel
  have reach : ∀ g ∈ b.graphs, g.Reachable :=
    List.forall_mem_singleton.mpr (reachable_gauges _)
  have placed : Placed values b.graphs := placed_of_reachable reach (by decide +kernel)
  have written : b.written values = ["speed", "speed"] := by decide +kernel
  obtain ⟨result, _, fewer⟩ := warns_of_placed idle (by simp [values]) placed
  rw [written] at result fewer
  have sorted : Dictionary.Sorted values :=
    List.pairwise_pair.mpr (by decide : "speed" < "unused")
  exact ⟨fun g member => ⟨reach g member, idle g member⟩, sorted, by simp [values], result,
    by decide +kernel, fun warned => absurd (fewer.mp warned) (by decide)⟩

end Behavior

end Flowgraph
