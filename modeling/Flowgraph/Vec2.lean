import Flowgraph.Number.Hypotenuse

namespace Flowgraph

/-- A vector in the plane by its two parts. -/
structure Vec2 where
  x : Float
  y : Float
deriving Inhabited

namespace Vec2

def zero : Vec2 := ⟨0, 0⟩

instance : Add Vec2 where
  add v w := ⟨v.x + w.x, v.y + w.y⟩

def scale (v : Vec2) (s : Float) : Vec2 := ⟨v.x * s, v.y * s⟩

def length (v : Vec2) : Float := Number.hypotenuse v.x v.y

/-- The unit vector of the same direction; the zero vector stays zero. -/
def normalize (v : Vec2) : Vec2 :=
  let size := v.length
  if size == 0 then zero else v.scale (1 / size)

/-- Equality of both parts as numbers: both zeros are equal, and nothing equals a NaN. -/
def same (v w : Vec2) : Bool := v.x == w.x && v.y == w.y

end Vec2

end Flowgraph
