import Flowgraph.Proofs.Tick.Worklist

namespace Flowgraph

open Propagation (Turn)

/-- Why a node runs as the `n`-th: it was due at the start and has not run yet, or it waits for no
notification and an activation has reached it since its last run. -/
def Cause (g : Graph) (runs : Array Execution) (n : Nat) (id : NodeId) : Prop :=
  (g.IsActive id ∧ ∀ q e, q < n → runs[q]? = some e → e.node ≠ id) ∨
    (¬ g.IsEvent id ∧ ∃ q e, q < n ∧ runs[q]? = some e ∧ e.Activates g id ∧
      ∀ r f, q < r → r < n → runs[r]? = some f → f.node ≠ id)

/-- A later run of a node. -/
def RunsAfter (runs : Array Execution) (q : Nat) (id : NodeId) : Prop :=
  ∃ r f, q < r ∧ runs[r]? = some f ∧ f.node = id

variable {g : Graph} {scene : Scene} {runs : Array Execution} {n q : Nat} {id : NodeId}

theorem RunsAfter.push {f : Execution} (again : RunsAfter runs q id) :
    RunsAfter (runs.push f) q id := by
  obtain ⟨r, e, later, entry, same⟩ := again
  exact ⟨r, e, later, getElem?_push_of_some entry, same⟩

theorem Cause.push {f : Execution} (cause : Cause g runs n id) (bound : n ≤ runs.size) :
    Cause g (runs.push f) n id := by
  have read {r : Nat} {h : Execution} (below : r < n) (entry : (runs.push f)[r]? = some h) :
      runs[r]? = some h := by
    rcases getElem?_push_cases entry with ⟨last, _⟩ | ⟨_, old⟩
    · omega
    · exact old
  rcases cause with ⟨active, fresh⟩ | ⟨notEvent, q, e, before, entry, activates, since⟩
  · exact Or.inl ⟨active, fun q e below entry => fresh q e below (read below entry)⟩
  · exact Or.inr ⟨notEvent, q, e, before, getElem?_push_of_some entry, activates,
      fun r h after below entry => since r h after below (read below entry)⟩

/-- A cause lasts while other nodes run. -/
theorem Cause.wait {f : Execution} (cause : Cause g runs runs.size id) (other : f.node ≠ id) :
    Cause g (runs.push f) (runs.size + 1) id := by
  rcases cause with ⟨active, fresh⟩ | ⟨notEvent, q, e, before, entry, activates, since⟩
  · refine Or.inl ⟨active, fun q e _ found => ?_⟩
    rcases getElem?_push_cases found with ⟨_, rfl⟩ | ⟨earlier, old⟩
    · exact other
    · exact fresh q e earlier old
  · refine Or.inr ⟨notEvent, q, e, by omega, getElem?_push_of_some entry, activates, ?_⟩
    intro r h after _ found
    rcases getElem?_push_cases found with ⟨_, rfl⟩ | ⟨earlier, old⟩
    · exact other
    · exact since r h after earlier old

/-- What is known of activations at a stage of a tick. -/
structure Accounted (g : Graph) (p : Propagation) : Prop where
  /-- Who was activated has run since or waits. -/
  answered : ∀ q e id, p.trace[q]? = some e → e.Activates g id → ¬ g.IsEvent id →
    id ∈ p.pending ∨ RunsAfter p.trace q id
  waiting : ∀ id ∈ p.pending, Cause g p.trace p.trace.size id
  caused : ∀ n e, p.trace[n]? = some e → Cause g p.trace n e.node

theorem accounted_start (whole : g.Integrity) (entity : Entity) :
    Accounted g (Propagation.start g entity) := by
  have nothing (q : Nat) : (Propagation.start g entity).trace[q]? = none := rfl
  refine ⟨fun q e id entry => ?_, fun id waits => ?_, fun n e entry => ?_⟩
  · cases (nothing q).symm.trans entry
  · have due := ((g.running_start whole entity).queued.mem_iff id).mp waits
    exact Or.inl ⟨due, fun q e _ entry => by cases (nothing q).symm.trans entry⟩
  · cases (nothing n).symm.trans entry

/-- A turn answers the activations of its node by a run, and its own activations wait in the
queue. -/
theorem Accounted.turn {p q : Propagation} {e : Execution} {node : Node}
    {rest woken : List NodeId} (accounted : Accounted g p) (running : g.Running p)
    (turn : Turn scene.keys scene.world p q e node rest woken) : Accounted g q := by
  have nodup := running.queued.nodup
  rw [turn.head] at nodup
  have headFresh := (List.nodup_cons.mp nodup).1
  have size : (p.trace.push e)[p.trace.size]? = some e := Array.getElem?_push_size
  have mem_woken (id : NodeId) : id ∈ woken ↔ e.Activates g id ∧ ¬ g.IsEvent id ∧ id ∉ rest := by
    rw [turn.mem_woken, running.activates_iff, running.isEvent_iff]
  constructor
  · intro position f id entry activates notEvent
    rw [turn.trace] at entry ⊢
    rw [turn.tail, List.mem_append]
    rcases getElem?_push_cases entry with ⟨_, rfl⟩ | ⟨earlier, old⟩
    · -- activated by this very turn: it keeps its place in the queue, or it is put there
      by_cases waits : id ∈ rest
      · exact Or.inl (Or.inl waits)
      · exact Or.inl (Or.inr ((mem_woken id).mpr ⟨activates, notEvent, waits⟩))
    · rcases accounted.answered position f id old activates notEvent with waits | again
      · rw [turn.head, List.mem_cons] at waits
        rcases waits with rfl | waits
        · exact Or.inr ⟨p.trace.size, e, earlier, size, rfl⟩
        · exact Or.inl (Or.inl waits)
      · exact Or.inr again.push
  · intro id waits
    rw [turn.tail, List.mem_append] at waits
    rw [turn.trace, Array.size_push]
    rcases waits with waits | awoken
    · have cause := accounted.waiting id (by rw [turn.head]; exact List.mem_cons_of_mem _ waits)
      exact cause.wait fun same => headFresh (same ▸ waits)
    · obtain ⟨activates, notEvent, _⟩ := (mem_woken id).mp awoken
      exact Or.inr ⟨notEvent, p.trace.size, e, Nat.lt_succ_self _, size, activates,
        fun r f after below => by omega⟩
  · intro n f entry
    rw [turn.trace] at entry ⊢
    rcases getElem?_push_cases entry with ⟨rfl, rfl⟩ | ⟨earlier, old⟩
    · have waits : f.node ∈ p.pending := by rw [turn.head]; exact List.mem_cons_self
      exact (accounted.waiting f.node waits).push (Nat.le_refl _)
    · exact (accounted.caused n f old).push (Nat.le_of_lt earlier)

namespace Graph

/-- At every stage of a tick no activation is lost, and each node in the queue has a cause. -/
theorem Stage.accounted {p : Propagation} (stage : g.Stage scene p) (whole : g.Integrity) :
    Accounted g p := by
  refine Stage.induct whole ?_ ?_ stage
  · exact accounted_start whole scene.entity
  · intro p q e node rest woken _ running turn accounted
    exact accounted.turn running turn

/-- Every run of a tick has a cause, on whichever exit. -/
theorem caused_of_trace (whole : g.Integrity) {n : Nat} {e : Execution}
    (entry : (g.trace scene)[n]? = some e) : Cause g (g.trace scene) n e.node := by
  unfold trace at entry ⊢
  have ends := g.propagate_ends scene
  generalize g.propagate scene = result at ends entry ⊢
  cases ends with
  | settled stage => exact (stage.accounted whole).caused n e entry
  | capped stage => exact (stage.accounted whole).caused n e entry
  | @escaped p _ _ _ stage queue ran =>
    have accounted := stage.accounted whole
    obtain ⟨last, node, cut⟩ := (stage.running whole).queued.cutShort queue ran
    simp only [cut.trace] at entry ⊢
    rcases getElem?_push_cases entry with ⟨rfl, rfl⟩ | ⟨earlier, old⟩
    · have waits : e.node ∈ p.pending := by rw [cut.head]; exact List.mem_cons_self
      exact (accounted.waiting e.node waits).push (Nat.le_refl _)
    · exact (accounted.caused n e old).push (Nat.le_of_lt earlier)

/-- A node that no edge awakens runs at most once, and only if it is due at the start. -/
theorem once_of_unwoken (whole : g.Integrity)
    (unwoken : ∀ e : Execution, e.Activates g id → g.IsEvent id) {i : Nat} {e : Execution}
    (entry : (g.trace scene)[i]? = some e) (own : e.node = id) :
    g.IsActive id ∧ ∀ (j : Nat) f, (g.trace scene)[j]? = some f → f.node = id → j = i := by
  have first {k : Nat} {f : Execution} (found : (g.trace scene)[k]? = some f)
      (same : f.node = id) : g.IsActive id ∧
        ∀ (q : Nat) h, q < k → (g.trace scene)[q]? = some h → h.node ≠ id := by
    subst same
    rcases caused_of_trace whole found with cause | ⟨notEvent, _, h, _, _, activates, _⟩
    · exact cause
    · exact absurd (unwoken h activates) notEvent
  obtain ⟨due, unran⟩ := first entry own
  refine ⟨due, fun j f found same => ?_⟩
  rcases Nat.lt_trichotomy j i with before | here | after
  · exact absurd same (unran j f before found)
  · exact here
  · exact absurd own ((first found same).2 i e after entry)

/-- In a tick that completes below its cap, every activation of a node by an edge is followed by a
run of it, unless it waits for a notification; and every run has a cause: the node was due at the
start and runs for the first time, or it was activated after its last run. -/
theorem activation_exact (reach : g.Reachable) (idle : g.phase = .idle) {report : TickReport}
    (done : (g.tick scene).result = .ok report) (below : report.overflowed = false) :
    (g.trace scene).size = report.executions ∧
    (∀ (q : Nat) e id, (g.trace scene)[q]? = some e → e.Activates g id → ¬ g.IsEvent id →
      ∃ (p : Nat) (f : Execution), q < p ∧ (g.trace scene)[p]? = some f ∧ f.node = id) ∧
    (∀ (p : Nat) f, (g.trace scene)[p]? = some f →
      (g.IsActive f.node ∧
        ∀ (q : Nat) e, q < p → (g.trace scene)[q]? = some e → e.node ≠ f.node) ∨
      (¬ g.IsEvent f.node ∧ ∃ (q : Nat) (e : Execution),
        q < p ∧ (g.trace scene)[q]? = some e ∧ e.Activates g f.node ∧
          ∀ (r : Nat) h, q < r → r < p → (g.trace scene)[r]? = some h → h.node ≠ f.node)) := by
  have whole := reach.integrity
  obtain ⟨p, stage, empty, trace, ticked⟩ := settled_of_tick idle done below
  have accounted := stage.accounted whole
  rw [trace]
  refine ⟨?_, fun q e id entry activates notEvent => ?_, accounted.caused⟩
  · rw [ticked] at done
    cases done
    exact (stage.running whole).counted
  · rcases accounted.answered q e id entry activates notEvent with waits | again
    · simp [empty] at waits
    · exact again

theorem activation_exact_detour :
    detour.Reachable ∧ detour.phase = .idle ∧ (detour.tick quiet).result = .ok ⟨4, [], false⟩ ∧
      (detour.trace quiet)[2]? = some ⟨⟨2⟩, [.bool true], .ran [true]⟩ ∧ ¬ detour.IsEvent ⟨3⟩ ∧
      ∃ (p : Nat) (f : Execution), 2 < p ∧ (detour.trace quiet)[p]? = some f ∧ f.node = ⟨3⟩ := by
  have entry : (detour.trace quiet)[2]? = some ⟨⟨2⟩, [.bool true], .ran [true]⟩ := by
    rw [trace_detour]
    rfl
  let long : Edge := ⟨⟨2⟩, 0, ⟨3⟩, 1⟩
  have notEvent : ¬ detour.IsEvent ⟨3⟩ := by
    rintro ⟨node, live, event⟩
    cases live
    cases event
  have done : (detour.tick quiet).result = .ok ⟨4, [], false⟩ := rfl
  obtain ⟨_, answered, _⟩ := activation_exact reachable_detour rfl done rfl
  exact ⟨reachable_detour, rfl, done, entry, notEvent,
    answered 2 _ ⟨3⟩ entry ⟨[true], ⟨3⟩, long, rfl, rfl, rfl, rfl, rfl⟩ notEvent⟩

end Graph

end Flowgraph
