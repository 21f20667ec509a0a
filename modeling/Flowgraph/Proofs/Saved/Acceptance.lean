import Flowgraph.Proofs.Saved.RoundTrip

namespace Flowgraph

/-- A saved node with one setting for each port of its template: the saved one as the port stores
it, or the default where none is saved or it does not fit. -/
def SavedNode.normalize (registry : Registry) (saved : SavedNode) : SavedNode :=
  match registry.get? saved.template with
  | none => saved
  | some t =>
    { saved with
      settings := (t.internals.zip t.defaults).mapIdx fun index (port, default) =>
        (saved.settings[index]?.bind port.type.coerce?).getD default }

/-- A form with its settings in order. -/
def SavedGraph.normalize (registry : Registry) (form : SavedGraph) : SavedGraph :=
  { form with nodes := form.nodes.map (SavedNode.normalize registry) }

namespace Graph

variable {g : Graph} {registry : Registry} {form : SavedGraph} {refs : List NodeRef}
  {before : List SavedEdge}

/-- Settings are matched with ports by position: one that fits is stored in the form of its port,
and elsewhere the default stays. -/
theorem internals_build {saved : SavedNode} {t : Template}
    (found : registry.get? saved.template = some t)
    (paired : t.defaults.length = t.internals.length) :
    (saved.build t).internals = (saved.normalize registry).settings := by
  simp only [SavedNode.build, SavedNode.normalize, found]
  apply List.ext_getElem?
  intro index
  rw [getElem?_restoreSettings, List.getElem?_mapIdx]
  by_cases inside : index < t.defaults.length
  · have portInside : index < t.internals.length := paired ▸ inside
    have atPort := List.getElem?_eq_getElem portInside
    have default := List.getElem?_eq_getElem inside
    have zipped : (t.internals.zip t.defaults)[index]? =
        some (t.internals[index], t.defaults[index]) :=
      List.getElem?_zip_eq_some.mpr ⟨atPort, default⟩
    rw [atPort, default, zipped]
    cases saved.settings[index]? <;> rfl
  · have beyond := Nat.not_lt.mp inside
    have short : (t.internals.zip t.defaults).length ≤ index := by
      rw [List.length_zip]
      omega
    rw [List.getElem?_eq_none_iff.mpr beyond, List.getElem?_eq_none_iff.mpr short]
    rfl

namespace Loading

/-- Nodes are numbered by position already. -/
theorem rank_eq (loading : Loading registry form refs before g) {id : NodeId} (live : g.Live id) :
    g.rank id = id := by
  obtain ⟨node, atId⟩ := live
  obtain ⟨member, own⟩ := loading.whole.live_iff_mem.mp atId
  obtain ⟨position, read⟩ := List.getElem?_of_mem member
  have inside : position < form.nodes.length := by
    rw [← loading.length]
    exact (List.getElem?_eq_some_iff.mp read).1
  obtain ⟨t, _, here⟩ := loading.nodes position _ (List.getElem?_eq_getElem inside)
  cases read.symm.trans here
  rw [← own]
  exact loading.whole.rank_eq read

/-- What is saved of a loaded graph is its form with the settings in order. -/
theorem save_eq (loading : Loading registry form refs form.edges g)
    (named : ∀ name t, registry.get? name = some t → t.name = name)
    (paired : ∀ saved ∈ form.nodes, ∀ t, registry.get? saved.template = some t →
      t.defaults.length = t.internals.length) :
    g.save = form.normalize registry := by
  have nodes : g.nodeList.map Node.saved = form.nodes.map (SavedNode.normalize registry) := by
    apply List.ext_getElem?
    intro position
    rw [List.getElem?_map, List.getElem?_map]
    cases atPosition : form.nodes[position]? with
    | none =>
      have beyond := List.getElem?_eq_none_iff.mp atPosition
      rw [List.getElem?_eq_none_iff.mpr (loading.length ▸ beyond)]
      rfl
    | some saved =>
      obtain ⟨t, found, read⟩ := loading.nodes position saved atPosition
      have settings :=
        internals_build found (paired saved (List.mem_of_getElem? atPosition) t found)
      have template : (saved.normalize registry).template = saved.template := by
        simp only [SavedNode.normalize, found]
      have same : (copy ⟨position⟩ (saved.build t)).saved =
          ⟨t.name, (saved.build t).internals⟩ := rfl
      rw [read, Option.map_some, Option.map_some, same, settings, named _ t found, ← template]
  have edges : g.save.edges = form.edges := by
    rw [loading.whole.save_edges, List.map_map, ← loading.wires]
    refine List.map_congr_left fun wire member => ?_
    obtain ⟨id, live⟩ := mem_wires.mp member
    obtain ⟨source, target, atSource, atTarget, _⟩ := loading.whole.ends id wire live
    simp only [Function.comp_apply, Edge.renumber, loading.rank_eq ⟨source, atSource⟩,
      loading.rank_eq ⟨target, atTarget⟩]
  rw [SavedGraph.normalize, ← nodes, ← edges]
  rfl

end Loading

/-- Loading looks up references, settings and lists of edges only in places that are there. -/
structure InBounds (id : GraphId) (registry : Registry) (config : GraphConfig)
    (form : SavedGraph) : Prop where
  settings : ∀ node index,
    (load id registry config form).result ≠ .error (.missingSetting node index)
  references : ∀ refs, form.missing? = none →
    ((empty id registry config).loadNodes form.nodes).result = .ok refs →
    ∀ edge ∈ form.edges, edge.source < refs.length ∧ edge.target < refs.length
  lists : ∀ refs, ((empty id registry config).loadNodes form.nodes).result = .ok refs →
    ∀ done, done <+: form.edges → ∀ h,
      (((empty id registry config).loadNodes form.nodes).graph.loadEdges refs done).graph = h →
      ∀ ref ∈ refs, ref.node.index < h.adjacency.size

theorem nodes_loadEdges (refs : List NodeRef) (edges : List SavedEdge) (g : Graph) :
    (g.loadEdges refs edges).graph.nodes = g.nodes := by
  induction edges generalizing g with
  | nil => rfl
  | cons edge rest ih =>
    rw [loadEdges]
    split
    · rename_i source target _ _
      have added : (g.addEdge source edge.output target edge.input).graph.nodes = g.nodes := by
        rcases g.addEdge_cases source edge.output target edge.input with
          ⟨_, same⟩ | ⟨_, _, _, same⟩
        · rw [same]
        · rw [same]
          rfl
      simp only
      split
      · exact added
      · exact (ih _).trans added
    · exact ih g

/-- Where every setting has a default, loading never reaches for a place that is missing. -/
theorem inBounds (id : GraphId) (config : GraphConfig) (form : SavedGraph)
    (paired : ∀ saved ∈ form.nodes, ∀ t, registry.get? saved.template = some t →
      t.defaults.length = t.internals.length) :
    InBounds id registry config form := by
  refine ⟨fun node index failed => ?_, fun refs missing answer edge member => ?_,
    fun refs answer done _ h same ref member => ?_⟩
  · have first := error?_load id config form paired
    rw [Reply.error?, failed] at first
    cases SavedGraph.isCrash_of_mem_violations (List.mem_of_head? first.symm)
  · have count : refs.length = form.nodes.length := by
      rw [(loading_nodes answer).refs, List.length_map, List.length_range]
    rw [count]
    exact SavedGraph.missing?_eq_none.mp missing edge member
  · have loading := loading_nodes answer
    rw [← same, (loading.whole.loadEdges refs done).adjacency_size, nodes_loadEdges]
    rw [loading.refs] at member
    obtain ⟨position, inside, rfl⟩ := List.mem_map.mp member
    obtain ⟨_, _, live⟩ :=
      loading.node? (List.getElem?_eq_getElem (List.mem_range.mp inside))
    exact index_lt_of_node? live

/-- A form is accepted exactly if it is well formed, and otherwise the first violation is the error.
What is saved of the loaded graph is the form with its settings in order. If a default is one that
its port stores as it is or does not store at all, that form is accepted again under every
configuration, and comes back the same. -/
theorem load_exact {declarations : List Template.Declaration}
    (declared : registry = Registry.declare {} declarations)
    (paired : ∀ t ∈ registry.templates, t.defaults.length = t.internals.length) (id : GraphId)
    (config : GraphConfig) (form : SavedGraph) :
    ((load id registry config form).result = .ok () ↔ form.WellFormed registry) ∧
      (load id registry config form).error? = (form.violations registry).head? ∧
      InBounds id registry config form ∧
      ((load id registry config form).result = .ok () →
        (load id registry config form).graph.save = form.normalize registry ∧
          ((∀ t ∈ registry.templates, t.Restorable) → ∀ id' config',
            (load id' registry config' (form.normalize registry)).result = .ok () ∧
              (load id' registry config' (form.normalize registry)).graph.save =
                form.normalize registry)) := by
  have pairs (saved : SavedNode) (_ : saved ∈ form.nodes) (t : Template)
      (found : registry.get? saved.template = some t) : t.defaults.length = t.internals.length :=
    paired t (List.mem_map_of_mem (Dictionary.mem_of_get? found))
  have named (name : String) (t : Template) (found : registry.get? name = some t) :
      t.name = name := by
    rw [declared] at found
    exact Registry.name_of_get? found
  have first := error?_load id config form pairs
  refine ⟨?_, first, inBounds id config form pairs, fun answer => ?_⟩
  · rw [← SavedGraph.violations_eq_nil, ← List.head?_eq_none_iff, ← first, error?_eq_none]
    exact ⟨fun answer => ⟨(), answer⟩, fun ⟨_, answer⟩ => answer⟩
  · obtain ⟨refs, loading⟩ := loading_load answer
    have saved := loading.save_eq named pairs
    refine ⟨saved, fun fits id' config' => ?_⟩
    have around := (fresh_load id registry config form).2
    have own : (load id registry config form).graph.registry = registry :=
      (congrArg Graph.registry around :)
    have kept := (Reachable.load answer).kept (own.trans declared) (own.symm ▸ fits)
    obtain ⟨again, compact⟩ := loading.whole.load_save kept id' config'
    rw [own, saved] at again compact
    exact ⟨again, (compact.save_eq loading.whole).trans saved⟩

/-- Seeds with too few settings, too many and one that does not fit, wired to a join. -/
def patched : SavedGraph where
  nodes := [⟨"Seed", []⟩, ⟨"Seed", [.bool false, .int 9]⟩, ⟨"Seed", [.int 7]⟩, ⟨"Join", []⟩]
  edges := [⟨2, 0, 3, 1⟩, ⟨0, 0, 3, 0⟩]

/-- The second edge ends where the first does, and the third starts at no output. -/
def clashing : SavedGraph :=
  { patched with edges := [⟨0, 0, 3, 0⟩, ⟨1, 0, 3, 0⟩, ⟨2, 4, 3, 1⟩] }

theorem load_exact_patched :
    (∀ t ∈ (Registry.declare {} flow).templates, t.defaults.length = t.internals.length) ∧
      patched.WellFormed (Registry.declare {} flow) ∧
      (load ⟨1⟩ (Registry.declare {} flow) {} patched).graph.save =
        { patched with nodes := [⟨"Seed", [.bool true]⟩, ⟨"Seed", [.bool false]⟩,
            ⟨"Seed", [.bool true]⟩, ⟨"Join", []⟩] } ∧
      (load ⟨2⟩ (Registry.declare {} flow) {}
        (patched.normalize (Registry.declare {} flow))).result = .ok () ∧
      (load ⟨1⟩ (Registry.declare {} flow) {} clashing).error? = some (.inputTaken ⟨3⟩ 0) := by
  have paired : ∀ t ∈ (Registry.declare {} flow).templates,
      t.defaults.length = t.internals.length := fun t member => (restorable_flow member).length
  have answer : (load ⟨1⟩ (Registry.declare {} flow) {} patched).result = .ok () := by rfl
  obtain ⟨accepted, _, _, saved⟩ := load_exact rfl paired ⟨1⟩ {} patched
  obtain ⟨_, first, _⟩ := load_exact rfl paired ⟨1⟩ {} clashing
  obtain ⟨inOrder, again⟩ := saved answer
  exact ⟨paired, accepted.mp answer, inOrder, (again (fun t => restorable_flow) ⟨2⟩ {}).1, first⟩

end Graph

end Flowgraph
