import Flowgraph.Proofs.Graph.Change
import Flowgraph.Proofs.Graph.Refusal
import Flowgraph.Proofs.Graph.Replies

namespace Flowgraph.Graph

variable {g : Graph} {call : Call}

/-- What a run hands out, call by call. -/
def handedOut {α : Type} (answer? : Graph → Call → Option α) (g : Graph) : List Call → List α
  | [] => []
  | call :: rest => (answer? g call).toList ++ handedOut answer? (call.after g) rest

/-- Some call of a run does something to the graph that it is made on. -/
def Happens (does : Graph → Call → Prop) (g : Graph) : List Call → Prop
  | [] => False
  | call :: rest => does g call ∨ Happens does (call.after g) rest

/-- Numbers that are counted off from a count that only grows come in ascending order. -/
theorem handedOut_ascending {α : Type} {answer? : Graph → Call → Option α} {number : α → Nat}
    {count : Graph → Nat}
    (grows : ∀ (g : Graph) (call : Call), g.Integrity → count g ≤ count (call.after g))
    (next : ∀ (g : Graph) (call : Call) a, answer? g call = some a →
      number a = count g ∧ count g < count (call.after g))
    (whole : g.Integrity) (calls : List Call) :
    (∀ a ∈ g.handedOut answer? calls, count g ≤ number a) ∧
      (g.handedOut answer? calls).Pairwise (number · < number ·) := by
  -- the bound carries the induction: later numbers are counted on from where this call left off
  induction calls generalizing g with
  | nil => exact ⟨fun a member => absurd member List.not_mem_nil, .nil⟩
  | cons call rest ih =>
    obtain ⟨bound, ascending⟩ := ih (whole.after call)
    unfold handedOut
    cases made : answer? g call with
    | none =>
      refine ⟨fun a member => ?_, ascending⟩
      exact Nat.le_trans (grows g call whole) (bound a member)
    | some a =>
      obtain ⟨here, more⟩ := next g call a made
      have later (b : α) (member : b ∈ (call.after g).handedOut answer? rest) :
          number a < number b := by
        have counted := bound b member
        omega
      rw [Option.toList_some, List.singleton_append]
      refine ⟨fun b member => ?_, .cons later ascending⟩
      rcases List.mem_cons.mp member with rfl | member
      · exact Nat.le_of_eq here.symm
      · have above := later b member
        omega

/-- Something that is kept by all calls but those that take it, and stays away once it is taken. -/
theorem kept_or_taken {kept gone : Graph → Prop} {takes : Graph → Call → Prop}
    (keep : ∀ {g : Graph} {call : Call}, kept g → ¬ takes g call → kept (call.after g))
    (take : ∀ {g : Graph} {call : Call}, kept g → takes g call → gone (call.after g))
    (stay : ∀ {g : Graph} {call : Call}, gone g → gone (call.after g))
    (start : kept g) (calls : List Call) :
    (¬ g.Happens takes calls → kept (g.afterAll calls)) ∧
      (g.Happens takes calls → gone (g.afterAll calls)) := by
  have away (calls : List Call) {g : Graph} (taken : gone g) : gone (g.afterAll calls) := by
    induction calls generalizing g with
    | nil => exact taken
    | cons call rest ih => exact ih (stay taken)
  induction calls generalizing g with
  | nil => exact ⟨fun _ => start, False.elim⟩
  | cons call rest ih =>
    -- what this call takes is away for the rest of the run; otherwise the rest decides
    by_cases taken : takes g call
    · exact ⟨fun never => absurd (Or.inl taken) never, fun _ => away rest (take start taken)⟩
    · obtain ⟨lasts, goes⟩ := ih (keep start taken)
      exact ⟨fun never => lasts fun later => never (Or.inr later),
        fun happens => goes (happens.resolve_left taken)⟩

/-- A call removes the node of a reference. -/
def Call.Removes (ref : NodeRef) (g : Graph) (call : Call) : Prop :=
  call = .removeNode ref ∧ call.error? g = none

/-- A call removes an edge from one node to another, either the edge itself or one of the nodes. -/
def Call.Detaches (id : EdgeId) (source target : NodeRef) (g : Graph) (call : Call) : Prop :=
  (call = .removeEdge id ∨ call = .removeNode source ∨ call = .removeNode target) ∧
    call.error? g = none

/-- What a call leaves of a graph, by the slots that it fills and clears. -/
inductive Rebuilt (g : Graph) (call : Call) : Graph → Prop
  | same {h : Graph} : h.skeleton = g.skeleton → Rebuilt g call h
  | withNode (t : Template) : Rebuilt g call (g.withNode t)
  | withoutNode {ref : NodeRef} {h : Graph} : call = .removeNode ref → call.error? g = none →
      ref = g.ref ref.node →
      (∀ id, h.node? id = if id = ref.node then none else g.node? id) →
      (∀ id, h.edge? id =
        (g.edge? id).filter fun edge => edge.source ≠ ref.node ∧ edge.target ≠ ref.node) →
      h.edges.size = g.edges.size → Rebuilt g call h
  | withEdge (edge : Edge) : Rebuilt g call (g.withEdge edge)
  | withoutEdge {id : EdgeId} : call = .removeEdge id → call.error? g = none →
      Rebuilt g call (g.detachEdge id)

theorem Refused.error? {α : Type} {reply : Reply α} (refused : g.Refused reply) :
    reply.error? ≠ none := by
  obtain ⟨⟨e, failed⟩, _⟩ := refused
  simp [Reply.error?, failed]

theorem error?_of_ok {α : Type} {reply : Reply α} {a : α} (answer : reply.result = .ok a) :
    reply.error? = none := by
  simp only [Reply.error?, answer]

/-- Every call keeps the skeleton, or makes or takes away one node or one edge. -/
theorem Integrity.rebuilt (whole : g.Integrity) (call : Call) :
    g.Rebuilt call (call.after g) := by
  have refused {α : Type} {reply : Reply α} (refused : g.Refused reply) :
      g.Rebuilt call reply.graph := by
    rw [refused.2]
    exact .same rfl
  by_cases edits : call.Edits
  case neg => exact .same (skeleton_eq_of_program (call.program_after edits g))
  cases call with
  | addNode name =>
    rcases g.addNode_cases name with failed | ⟨t, _, _, added⟩
    · exact refused failed
    · rw [Call.after, added]
      exact .withNode t
  | removeNode ref =>
    rcases whole.removeNode_cases ref with failed | ⟨own, answer, nodes, edges, size⟩
    · exact refused failed
    · exact .withoutNode rfl (error?_of_ok answer) own nodes edges size
  | addEdge source output target input =>
    rcases g.addEdge_cases source output target input with failed | ⟨_, _, _, added⟩
    · exact refused failed
    · rw [Call.after, added]
      exact .withEdge _
  | removeEdge id =>
    rcases g.removeEdge_cases id with failed | ⟨answer, detached⟩
    · exact refused failed
    · rw [Call.after, detached]
      exact .withoutEdge rfl (error?_of_ok answer)
  | setInternal ref index value => exact .same (g.skeleton_setInternal ref index value)
  | applyExports values => exact .same (g.skeleton_applyExports values)
  | _ => exact edits.elim

section
variable {id : NodeId} {ref : NodeRef} {t : Template}

/-- The template of the node in a slot. -/
def templateAt (g : Graph) (id : NodeId) : Option Template := (g.node? id).map (·.template)

theorem templateAt_of_skeleton {h : Graph} (same : h.skeleton = g.skeleton) :
    h.templateAt id = g.templateAt id := by
  have read := congrArg (Option.map Node.template) (map_node?_of_strip same id)
  rw [Option.map_map, Option.map_map] at read
  exact read

/-- The reference to the node that a call makes. -/
def Call.madeNode? (g : Graph) : Call → Option NodeRef
  | .addNode name => (g.addNode name).result.toOption
  | _ => none

/-- A new node has the number after all that were ever given. -/
theorem Call.madeNode?_eq_some (made : call.madeNode? g = some ref) :
    ref.node.index = g.nodes.size ∧ g.nodes.size < (call.after g).nodes.size := by
  cases call with
  | addNode name =>
    rcases g.addNode_cases name with ⟨⟨e, failed⟩, _⟩ | ⟨t, _, answer, added⟩
    · simp [madeNode?, failed, Except.toOption] at made
    · simp only [madeNode?, answer, Except.toOption, Option.some.injEq] at made
      subst made
      refine ⟨rfl, ?_⟩
      rw [after, added, withNode, Array.size_push]
      omega
  | _ => cases made

theorem Integrity.node?_of_removes (whole : g.Integrity) (removes : call.Removes ref g) :
    (call.after g).node? ref.node = none := by
  obtain ⟨rfl, accepted⟩ := removes
  rcases whole.removeNode_cases ref with refused | ⟨_, _, nodes, _⟩
  · exact absurd accepted refused.error?
  · exact (nodes ref.node).trans (if_pos rfl)

/-- Only its removal changes which template the node of an old slot is of. -/
theorem Integrity.templateAt_after (whole : g.Integrity) (old : id.index < g.nodes.size)
    (kept : ¬ call.Removes (g.ref id) g) : (call.after g).templateAt id = g.templateAt id := by
  have rebuilt := whole.rebuilt call
  generalize call.after g = h at rebuilt
  cases rebuilt with
  | same skeleton => exact templateAt_of_skeleton skeleton
  | withNode t => rw [templateAt, node?_withNode, if_neg (Nat.ne_of_lt old), templateAt]
  | @withoutNode ref _ made accepted own nodes =>
    have apart : id ≠ ref.node := by
      rintro rfl
      exact kept ⟨own ▸ made, accepted⟩
    rw [templateAt, nodes, if_neg apart, templateAt]
  | withEdge edge => rfl
  | withoutEdge => rw [templateAt, node?_detachEdge, templateAt]

/-- What a graph says of a reference that stands for no node: nothing is found by it, and the calls
of an idle graph refuse it. -/
structure Unknown (g : Graph) (ref : NodeRef) : Prop where
  find : g.find? ref = none
  edgesAt : g.edgesAt ref = ([], [])
  removeNode : g.isIdle = true → (g.removeNode ref).result = .error (.unknownNode ref.node)
  setInternal : g.isIdle = true → ∀ index value,
    (g.setInternal ref index value).result = .error (.unknownNode ref.node)
  activate : g.isIdle = true → (g.activate ref).result = .error (.unknownNode ref.node)
  source : g.isIdle = true → ∀ output target input,
    (g.addEdge ref output target input).result = .error (.unknownNode ref.node)
  target : g.isIdle = true → ∀ source output input, (∃ node, g.find? source = some node) →
    (g.addEdge source output ref input).result = .error (.unknownNode ref.node)

theorem resolve_of_find? {node : Node} (found : g.find? ref = some node) :
    g.resolve ref = .ok node := by
  unfold find? at found
  split at found
  · rename_i own
    exact resolve_eq_ok.mpr ⟨own, found⟩
  · cases found

/-- A reference to an empty slot is unknown to every call that takes one. -/
theorem unknown_of_dead (own : ref.graph = g.id) (dead : g.node? ref.node = none) :
    g.Unknown ref := by
  have absent : g.find? ref = none := by simp only [find?, own, if_true, dead]
  have unresolved : g.resolve ref = .error (.unknownNode ref.node) := by
    simp only [resolve, own, if_true, dead]
  refine ⟨absent, ?_, fun idle => ?_, fun idle index value => ?_, fun idle => ?_,
    fun idle output target input => ?_, fun idle source output input live => ?_⟩
  · simp only [Graph.edgesAt, absent]
  · simp only [Graph.removeNode, whenIdle_of_idle idle, unresolved, refuse]
  · simp only [Graph.setInternal, whenIdle_of_idle idle, unresolved, refuse]
  · simp only [Graph.activate, whenIdle_of_idle idle, unresolved, refuse]
  · have checked : g.checkEdge ref output target input = .error (.unknownNode ref.node) := by
      simp only [checkEdge, unresolved]
      rfl
    simp only [addEdge, whenIdle_of_idle idle, checked, refuse]
  · obtain ⟨node, found⟩ := live
    have checked : g.checkEdge source output ref input = .error (.unknownNode ref.node) := by
      simp only [checkEdge, resolve_of_find? found, unresolved]
      rfl
    simp only [addEdge, whenIdle_of_idle idle, checked, refuse]

/-- The node that a reference was given for is still there. -/
structure Standing (ref : NodeRef) (t : Template) (g : Graph) : Prop where
  whole : g.Integrity
  own : ref = g.ref ref.node
  template : g.templateAt ref.node = some t

/-- The node that a reference was given for has been removed. -/
structure Removed (ref : NodeRef) (g : Graph) : Prop where
  whole : g.Integrity
  own : ref = g.ref ref.node
  old : ref.node.index < g.nodes.size
  dead : g.node? ref.node = none

theorem own_after (call : Call) (own : ref = g.ref ref.node) :
    ref = (call.after g).ref ref.node := by
  rw [Graph.ref, call.id_after]
  exact own

/-- From the call that made it, a node stands under its reference. -/
theorem Integrity.standing_addNode (whole : g.Integrity) {name : String}
    (answer : (g.addNode name).result = .ok ref) :
    ∃ t, g.registry.get? name = some t ∧ Standing ref t (g.addNode name).graph := by
  rcases g.addNode_cases name with ⟨⟨e, failed⟩, _⟩ | ⟨t, known, made, added⟩
  · cases failed.symm.trans answer
  cases made.symm.trans answer
  refine ⟨t, known, whole.addNode name, own_after (.addNode name) rfl, ?_⟩
  have stamped : (g.withNode t).node? ⟨g.nodes.size⟩ = some (Node.stamp ⟨g.nodes.size⟩ t) :=
    (g.node?_withNode t _).trans (if_pos rfl)
  rw [added]
  exact congrArg (Option.map Node.template) stamped

theorem Standing.node (standing : Standing ref t g) :
    ∃ node, g.node? ref.node = some node ∧ node.template = t :=
  Option.map_eq_some_iff.mp standing.template

/-- A reference finds its node. -/
theorem Standing.find (standing : Standing ref t g) :
    ∃ node, g.find? ref = some node ∧ node.id = ref.node ∧ node.template = t := by
  obtain ⟨node, live, template⟩ := standing.node
  refine ⟨node, ?_, standing.whole.own_id _ node live, template⟩
  have own : ref.graph = g.id := congrArg NodeRef.graph standing.own
  rw [find?, if_pos own, live]

theorem Removed.unknown (removed : Removed ref g) : g.Unknown ref :=
  unknown_of_dead (congrArg NodeRef.graph removed.own) removed.dead

/-- A node keeps its reference as long as it is not removed. -/
theorem Standing.after (standing : Standing ref t g) (kept : ¬ call.Removes ref g) :
    Standing ref t (call.after g) := by
  obtain ⟨node, live, _⟩ := standing.node
  refine ⟨standing.whole.after call, own_after call standing.own, ?_⟩
  rw [standing.own] at kept
  rw [standing.whole.templateAt_after (index_lt_of_node? live) kept, standing.template]

theorem Standing.removed (standing : Standing ref t g) (removes : call.Removes ref g) :
    Removed ref (call.after g) := by
  obtain ⟨node, live, _⟩ := standing.node
  exact ⟨standing.whole.after call, own_after call standing.own,
    Nat.lt_of_lt_of_le (index_lt_of_node? live) (call.size_after g),
    standing.whole.node?_of_removes removes⟩

/-- A removed node never comes back, since no slot is filled again. -/
theorem Removed.after (removed : Removed ref g) : Removed ref (call.after g) := by
  refine ⟨removed.whole.after call, own_after call removed.own,
    Nat.lt_of_lt_of_le removed.old (call.size_after g), ?_⟩
  by_cases removes : call.Removes ref g
  · exact removed.whole.node?_of_removes removes
  · rw [removed.own] at removes
    have still := removed.whole.templateAt_after removed.old removes
    simp only [templateAt, removed.dead, Option.map_none, Option.map_eq_none_iff] at still
    exact still

end

section
variable {id : EdgeId} {edge : Edge} {source target : NodeRef}

/-- The number of the edge that a call makes. -/
def Call.madeEdge? (g : Graph) : Call → Option EdgeId
  | .addEdge source output target input => (g.addEdge source output target input).result.toOption
  | _ => none

theorem Call.madeEdge?_eq_some (made : call.madeEdge? g = some id) :
    id.index = g.edges.size ∧ g.edges.size < (call.after g).edges.size := by
  cases call with
  | addEdge source output target input =>
    rcases g.addEdge_cases source output target input with ⟨⟨e, failed⟩, _⟩ | ⟨_, _, answer, added⟩
    · simp [madeEdge?, failed, Except.toOption] at made
    · simp only [madeEdge?, answer, Except.toOption, Option.some.injEq] at made
      subst made
      refine ⟨rfl, ?_⟩
      rw [after, added, withEdge, Array.size_push]
      omega
  | _ => cases made

theorem Integrity.size_edges_after (whole : g.Integrity) (call : Call) :
    g.edges.size ≤ (call.after g).edges.size := by
  have rebuilt := whole.rebuilt call
  generalize call.after g = h at rebuilt
  cases rebuilt with
  | same skeleton => exact Nat.le_of_eq (congrArg (·.edges.size) skeleton).symm
  | withNode t => exact Nat.le_refl _
  | withoutNode _ _ _ _ _ size => exact Nat.le_of_eq size.symm
  | withEdge edge =>
    rw [Graph.withEdge, Array.size_push]
    omega
  | @withoutEdge id => exact Nat.le_of_eq (size_edges_detachEdges [id] g).symm

theorem Integrity.edge?_of_detaches (whole : g.Integrity) (live : g.edge? id = some edge)
    (detaches : call.Detaches id (g.ref edge.source) (g.ref edge.target) g) :
    (call.after g).edge? id = none := by
  have cascade (node : NodeId) (ends : edge.source = node ∨ edge.target = node)
      (accepted : (Call.removeNode (g.ref node)).error? g = none) :
      (g.removeNode (g.ref node)).graph.edge? id = none := by
    rcases whole.removeNode_cases (g.ref node) with refused | ⟨_, _, _, edges, _⟩
    · exact absurd accepted refused.error?
    · rw [edges, live]
      rcases ends with rfl | rfl <;> simp [Graph.ref, Option.filter]
  obtain ⟨rfl | rfl | rfl, accepted⟩ := detaches
  · rcases g.removeEdge_cases id with refused | ⟨_, detached⟩
    · exact absurd accepted refused.error?
    · rw [Call.after, detached, edge?_detachEdge, if_pos rfl]
  · exact cascade edge.source (Or.inl rfl) accepted
  · exact cascade edge.target (Or.inr rfl) accepted

/-- An edge goes only when it is removed or one of its ends is. -/
theorem Integrity.edge?_after (whole : g.Integrity) (old : id.index < g.edges.size)
    (kept : ∀ edge, g.edge? id = some edge →
      ¬ call.Detaches id (g.ref edge.source) (g.ref edge.target) g) :
    (call.after g).edge? id = g.edge? id := by
  have rebuilt := whole.rebuilt call
  generalize call.after g = h at rebuilt
  cases rebuilt with
  | same skeleton =>
    have edges : h.edges = g.edges := (congrArg Graph.edges skeleton :)
    simp only [edge?, edges]
  | withNode t => rfl
  | @withoutNode ref _ made accepted own nodes edges =>
    rw [edges]
    cases live : g.edge? id with
    | none => rfl
    | some edge =>
      have source : edge.source ≠ ref.node := fun same =>
        kept edge live ⟨Or.inr (Or.inl (by rw [made, same, ← own])), accepted⟩
      have target : edge.target ≠ ref.node := fun same =>
        kept edge live ⟨Or.inr (Or.inr (by rw [made, same, ← own])), accepted⟩
      simp [Option.filter, source, target]
  | withEdge edge => rw [edge?_withEdge, if_neg (Nat.ne_of_lt old)]
  | @withoutEdge other made accepted =>
    rw [edge?_detachEdge]
    cases live : g.edge? id with
    | none => exact ite_self none
    | some edge =>
      have apart : id ≠ other := by
        rintro rfl
        exact kept edge live ⟨Or.inl made, accepted⟩
      exact if_neg apart

/-- The edge that a number was given to is still there, between the nodes of two references. -/
structure Joined (source target : NodeRef) (id : EdgeId) (edge : Edge) (g : Graph) : Prop where
  whole : g.Integrity
  source : source = g.ref edge.source
  target : target = g.ref edge.target
  live : g.edge? id = some edge

/-- The edge that a number was given to has been removed. -/
structure Detached (id : EdgeId) (g : Graph) : Prop where
  whole : g.Integrity
  old : id.index < g.edges.size
  dead : g.edge? id = none

theorem Integrity.joined_addEdge (whole : g.Integrity) {output input : Nat}
    (answer : (g.addEdge source output target input).result = .ok id) :
    Joined source target id ⟨source.node, output, target.node, input⟩
      (g.addEdge source output target input).graph := by
  have joined := whole.addEdge source output target input
  rcases g.addEdge_cases source output target input with
    ⟨⟨e, failed⟩, _⟩ | ⟨atSource, atTarget, made, added⟩
  · cases failed.symm.trans answer
  cases made.symm.trans answer
  refine ⟨joined, ?_, ?_, ?_⟩
  · rw [added]
    exact atSource
  · rw [added]
    exact atTarget
  · rw [added, edge?_withEdge, if_pos rfl]

theorem Detached.removeEdge (detached : Detached id g) (idle : g.isIdle = true) :
    (g.removeEdge id).result = .error (.unknownEdge id) := by
  rw [Graph.removeEdge, whenIdle_of_idle idle, detached.dead]
  rfl

/-- An edge keeps its number as long as it is not removed and both its ends stand. -/
theorem Joined.after (joined : Joined source target id edge g)
    (kept : ¬ call.Detaches id source target g) : Joined source target id edge (call.after g) := by
  obtain ⟨whole, rfl, rfl, live⟩ := joined
  refine ⟨whole.after call, own_after call rfl, own_after call rfl, ?_⟩
  rw [whole.edge?_after (index_lt_of_edge? live), live]
  intro other same
  cases live.symm.trans same
  exact kept

theorem Joined.detached (joined : Joined source target id edge g)
    (detaches : call.Detaches id source target g) : Detached id (call.after g) := by
  obtain ⟨whole, rfl, rfl, live⟩ := joined
  exact ⟨whole.after call, Nat.lt_of_lt_of_le (index_lt_of_edge? live) (whole.size_edges_after call),
    whole.edge?_of_detaches live detaches⟩

theorem Detached.after (detached : Detached id g) : Detached id (call.after g) := by
  obtain ⟨whole, old, dead⟩ := detached
  refine ⟨whole.after call, Nat.lt_of_lt_of_le old (whole.size_edges_after call), ?_⟩
  rw [whole.edge?_after old, dead]
  intro edge live
  cases dead.symm.trans live

end

/-- No number is given twice. Over any run the references to new nodes and the numbers of new edges
ascend. Until its node is removed, a reference finds that node, of the template that it was made
from; ever after, it is unknown. Until an edge is removed or goes with one of its ends, its number
denotes the edge as it was made; ever after, it denotes none. -/
theorem numbers_never_reused (reach : g.Reachable) (calls : List Call) :
    (g.handedOut Call.madeNode? calls).Pairwise (·.node.index < ·.node.index) ∧
      (g.handedOut Call.madeEdge? calls).Pairwise (·.index < ·.index) ∧
      (∀ name ref, (g.addNode name).result = .ok ref →
        let made := (g.addNode name).graph
        ∃ t, g.registry.get? name = some t ∧
          (¬ made.Happens (Call.Removes ref) calls →
            ∃ node, (made.afterAll calls).find? ref = some node ∧ node.id = ref.node ∧
              node.template = t) ∧
          (made.Happens (Call.Removes ref) calls → (made.afterAll calls).Unknown ref)) ∧
      (∀ source output target input id, (g.addEdge source output target input).result = .ok id →
        let made := (g.addEdge source output target input).graph
        (¬ made.Happens (Call.Detaches id source target) calls →
          (made.afterAll calls).edge? id = some ⟨source.node, output, target.node, input⟩) ∧
        (made.Happens (Call.Detaches id source target) calls →
          (made.afterAll calls).edge? id = none ∧
            ((made.afterAll calls).isIdle = true →
              ((made.afterAll calls).removeEdge id).result = .error (.unknownEdge id)))) := by
  have whole := reach.integrity
  refine ⟨?_, ?_, fun name ref answer => ?_, fun source output target input id answer => ?_⟩
  · exact (handedOut_ascending (fun g call _ => call.size_after g)
      (fun _ _ _ => Call.madeNode?_eq_some) whole calls).2
  · exact (handedOut_ascending (fun _ call whole => whole.size_edges_after call)
      (fun _ _ _ => Call.madeEdge?_eq_some) whole calls).2
  · obtain ⟨t, known, start⟩ := whole.standing_addNode answer
    obtain ⟨lasts, goes⟩ := kept_or_taken Standing.after Standing.removed Removed.after start calls
    exact ⟨t, known, fun never => (lasts never).find, fun happens => (goes happens).unknown⟩
  · have start := whole.joined_addEdge answer
    obtain ⟨lasts, goes⟩ := kept_or_taken Joined.after Joined.detached Detached.after start calls
    exact ⟨fun never => (lasts never).live, fun happens => ⟨(goes happens).dead,
      (goes happens).removeEdge⟩⟩

/-- A relay joined to the end of a detour. -/
def extended : Graph := (detour.addNode "Relay").graph

/-- The relay goes again, and its wire with it, before another node takes its place. -/
def replacing : List Call :=
  [.removeNode ⟨⟨0⟩, ⟨4⟩⟩, .addNode "Join", .addEdge ⟨⟨0⟩, ⟨3⟩⟩ 0 ⟨⟨0⟩, ⟨5⟩⟩ 0]

theorem numbers_never_reused_extended :
    (detour.addNode "Relay").result = .ok ⟨⟨0⟩, ⟨4⟩⟩ ∧
      (extended.afterAll replacing).Unknown ⟨⟨0⟩, ⟨4⟩⟩ ∧
      (extended.addEdge ⟨⟨0⟩, ⟨3⟩⟩ 0 ⟨⟨0⟩, ⟨4⟩⟩ 0).result = .ok ⟨4⟩ ∧
      ((extended.addEdge ⟨⟨0⟩, ⟨3⟩⟩ 0 ⟨⟨0⟩, ⟨4⟩⟩ 0).graph.afterAll replacing).edge? ⟨4⟩ = none ∧
      ((extended.addEdge ⟨⟨0⟩, ⟨3⟩⟩ 0 ⟨⟨0⟩, ⟨4⟩⟩ 0).graph.afterAll replacing).edge? ⟨5⟩ =
        some ⟨⟨3⟩, 0, ⟨5⟩, 0⟩ := by
  have node : (detour.addNode "Relay").result = .ok ⟨⟨0⟩, ⟨4⟩⟩ := rfl
  have edge : (extended.addEdge ⟨⟨0⟩, ⟨3⟩⟩ 0 ⟨⟨0⟩, ⟨4⟩⟩ 0).result = .ok ⟨4⟩ := rfl
  obtain ⟨_, _, nodes, _⟩ := numbers_never_reused reachable_detour replacing
  obtain ⟨_, _, _, unknown⟩ := nodes "Relay" _ node
  obtain ⟨_, _, _, edges⟩ :=
    numbers_never_reused (reachable_detour.call (.addNode "Relay")) replacing
  exact ⟨node, unknown (Or.inl ⟨rfl, rfl⟩), edge,
    ((edges _ _ _ _ _ edge).2 (Or.inl ⟨Or.inr (Or.inr rfl), rfl⟩)).1, rfl⟩

end Flowgraph.Graph
