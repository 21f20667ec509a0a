import Flowgraph.Proofs.Event.Told
import Flowgraph.Proofs.Tick.Activation
import Flowgraph.Proofs.Tick.Places

namespace Flowgraph

open Propagation (Run Turn)

namespace Node

variable {node : Node}

end Node

namespace Graph

variable {g : Graph} {scene : Scene} {id : NodeId} {node : Node}

/-- A tick that may run as often as there are nodes runs every node that is due at its start. -/
theorem LastStage.ran_of_due {report : TickReport} {p : Propagation}
    (last : g.LastStage scene report p) (whole : g.Integrity) (room : g.liveNodes ≤ g.cap)
    (due : g.IsActive id) : ∃ e ∈ g.trace scene, e.node = id := by
  have seed : id ∈ g.seeds := (mem_seeds whole).mpr due
  obtain ⟨e, member, same⟩ := List.mem_map.mp ((last.seeds_ran whole room).subset seed)
  exact ⟨e, Array.mem_toList_iff.mp member, same⟩

/-- At a stage an event node is as it was at the start, or as its one run has left it. -/
theorem Stage.event_node {p : Propagation} (stage : g.Stage scene p) (whole : g.Integrity)
    (live : g.node? id = some node) (event : node.template.isEvent = true) :
    ((∀ e ∈ p.trace, e.node ≠ id) ∧ p.graph.node? id = some node) ∨
      ∃ e ∈ p.trace, ∃ around, e.node = id ∧ e.outcome = (node.run e.inputs around).outcome ∧
        p.graph.node? id = some { (node.run e.inputs around).node with active := false } := by
  refine Stage.induct whole ?_ ?_ stage
  · exact Or.inl ⟨fun e member => absurd member (Array.not_mem_empty e), live⟩
  intro p q e other rest woken _ running turn before
  have asleep : id ∉ woken := by
    intro awoken
    have waits := ((turn.mem_woken id).mp awoken).2.1
    exact waits ((running.isEvent_iff id).mpr ⟨node, live, event⟩)
  have read := turn.nodes id
  simp only [asleep, if_false, Option.map_id'] at read
  have last : e ∈ q.trace := by rw [turn.trace]; exact Array.mem_push_self
  by_cases own : id = e.node
  · rw [if_pos own] at read
    have atHead := turn.live
    rw [← own] at atHead
    rcases before with ⟨_, same⟩ | ⟨_, _, _, _, _, spent⟩
    · cases atHead.symm.trans same
      exact Or.inr ⟨e, last, _, own.symm, turn.outcome, read⟩
    · -- after its run the node is not due, so it cannot be at the head of the queue
      cases atHead.symm.trans spent
      cases turn.active
  · rw [if_neg own] at read
    rcases before with ⟨unran, same⟩ | ⟨f, member, around, ofNode, outcome, spent⟩
    · refine Or.inl ⟨fun f member => ?_, read.trans same⟩
      rw [turn.trace, Array.mem_push] at member
      rcases member with earlier | rfl
      · exact unran f earlier
      · exact fun same => own same.symm
    · refine Or.inr ⟨f, ?_, around, ofNode, outcome, read.trans spent⟩
      rw [turn.trace]
      exact Array.mem_push_of_mem e member

/-- The count that a notification is answered with. -/
def Call.count? (g : Graph) : Call → Option Nat
  | .notify name payload => (g.notify name payload).result.toOption
  | .notifyCategory category payload => (g.notifyCategory category payload).result.toOption
  | .notifyTick dt => (g.notifyTick dt).result.toOption
  | .notifyCollision normal other => (g.notifyCollision normal other).result.toOption
  | _ => none

def bell : Template.Declaration :=
  .event "flow" "Bell" [⟨"tone", .int, none⟩, ⟨"name", .string, none⟩]

/-- Three bells, of which the first is told something twice and the last nothing. -/
def ringing : List Call :=
  [.addNode "Bell", .notify "Bell" [.int 1], .addNode "Bell", .notifyCategory "flow" [.int 7],
    .addNode "Bell"]

def tower : Graph := empty ⟨0⟩ (Registry.declare {} [bell]) {}

def belfry : Graph := tower.afterAll ringing

end Graph

end Flowgraph
