import Flowgraph.Json.Record

namespace Flowgraph

/-- The number of a graph. -/
structure GraphId where
  index : Nat
deriving DecidableEq, Repr

/-- The number of a node, which is the position of its slot. Numbers follow the order of creation,
and none is given twice. -/
structure NodeId where
  index : Nat
deriving DecidableEq, Repr

/-- The number of an edge, which is the position of its slot. -/
structure EdgeId where
  index : Nat
deriving DecidableEq, Repr

/-- A node of a given graph, since every graph numbers its own. -/
structure NodeRef where
  graph : GraphId
  node : NodeId
deriving DecidableEq, Repr

namespace NodeId

def toJson (id : NodeId) : Json := .int id.index

/-- A number of 32 bits. -/
def ofJson? (j : Json) : Option NodeId := (j.asNatBelow? UInt32.size).map (⟨·⟩)

end NodeId

instance : ToString NodeId where
  toString id := s!"#{id.index}"

instance : ToString EdgeId where
  toString id := s!"e{id.index}"

end Flowgraph
