import Flowgraph.Number.Binary64

namespace Flowgraph.Number

/-- The integer square root: the largest `r` with `r * r ≤ n`. -/
def squareRoot (n : Nat) : Nat :=
  if h : n = 0 then 0
  else
    let r := 2 * squareRoot (n / 4)
    if (r + 1) * (r + 1) ≤ n then r + 1 else r
termination_by n
decreasing_by omega

/-- The double nearest to the square root of `n · 4 ^ q`. The root is computed to at least 64
bits, and an odd last bit stands for whatever was cut off. -/
def rootOf (n : Nat) (q : Int) : Float :=
  let extra := 64 - n.log2 / 2
  let scaled := n <<< (2 * extra)
  let root := squareRoot scaled
  let sticky := if root * root = scaled then 0 else 1
  Binary64.round false (2 * root + sticky) (q - extra - 1)

/-- `√(x² + y²)`, correctly rounded: infinite if a leg is infinite, whatever the other is. Both legs
are written over one power of two and the squares added exactly, so nothing overflows on the way. -/
def hypotenuse (x y : Float) : Float :=
  match Binary64.ofFloat x, Binary64.ofFloat y with
  | .infinite _, _ | _, .infinite _ => Float.ofBits 0x7ff0000000000000
  | .nan, _ | _, .nan => Float.ofBits 0x7ff8000000000000
  | .finite _ m q, .finite _ n r =>
    let unit := min q r
    let a := m <<< (q - unit).toNat
    let b := n <<< (r - unit).toNat
    rootOf (a * a + b * b) unit

end Flowgraph.Number
