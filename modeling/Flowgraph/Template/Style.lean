namespace Flowgraph

/-- Two colours, as an editor writes them. -/
structure CategoryStyle where
  background : String
  border : String
deriving DecidableEq, Repr

namespace CategoryStyle

/-- The style of categories that have none of their own. -/
def neutral : CategoryStyle := ⟨"#d4d4d4", "#737373"⟩

def ofCategory : String → CategoryStyle
  | "logic" => ⟨"#0ea5e9", "#0369a1"⟩
  | "event" => ⟨"#eab308", "#a16207"⟩
  | "input" => ⟨"#eab308", "#a16207"⟩
  | "math" => ⟨"#f59e0b", "#b45309"⟩
  | "entity" => ⟨"#22c55e", "#15803d"⟩
  | _ => neutral

end CategoryStyle

end Flowgraph
