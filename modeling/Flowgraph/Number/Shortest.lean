import Flowgraph.Number.Binary64

namespace Flowgraph.Number

/-- The number `digits · 10 ^ exponent`. -/
structure Decimal where
  digits : Nat
  exponent : Int
deriving DecidableEq, Repr

/-- Which of two equally near decimals is taken. -/
inductive Tie where
  | toEven
  | up
deriving DecidableEq, Repr

/-- The reals `num / den` that round to a double lie between `low` and `high` over the same `den`;
the ends belong to it iff `closed`. -/
structure Interval where
  low : Nat
  mid : Nat
  high : Nat
  den : Nat
  closed : Bool

namespace Interval

/-- The interval of `m · 2 ^ q`, written over quarters of `2 ^ q`. Below a power of two the
neighbour is only half as far away, except at the bottom of the range. -/
def around (m : Nat) (q : Int) : Interval :=
  let below := if m = 1 <<< 52 ∧ -1074 < q then 1 else 2
  let up := 1 <<< (q - 2).toNat
  { low := (4 * m - below) * up
    mid := 4 * m * up
    high := (4 * m + 2) * up
    den := 1 <<< (2 - q).toNat
    closed := m % 2 = 0 }

/-- Whether `num / den'` lies in the interval. -/
def holds (i : Interval) (num den' : Nat) : Bool :=
  let x := num * i.den
  if i.closed then i.low * den' ≤ x && x ≤ i.high * den'
  else i.low * den' < x && x < i.high * den'

end Interval

/-- The point of the grid of multiples of `10 ^ k` that lies in the interval and is nearest to its
middle, as a multiple. -/
def gridPoint? (tie : Tie) (i : Interval) (k : Int) : Option Nat :=
  let (up, down) := tenPower k
  let below := i.mid * down / (i.den * up)
  let hit (d : Nat) : Bool := i.holds (d * up) down
  match hit below, hit (below + 1) with
  | false, false => none
  | true, false => some below
  | false, true => some (below + 1)
  | true, true =>
    let past := 2 * (i.mid * down % (i.den * up))
    if past < i.den * up then some below
    else if i.den * up < past then some (below + 1)
    else match tie with
      | .up => some (below + 1)
      | .toEven => some (below + below % 2)

/-- The number of decimal digits of a positive number. -/
def digitCount (n : Nat) : Nat :=
  if n < 10 then 1 else digitCount (n / 10) + 1
termination_by n
decreasing_by omega

/-- The exponent of the leading decimal digit of `num / den`. -/
def leadingExponent (num den : Nat) : Int :=
  let guess : Int := (digitCount num : Int) - digitCount den
  let (up, down) := tenPower guess
  if den * up ≤ num * down then guess else guess - 1

/-- The first grid with a hit, from the exponent of the leading digit downwards. Seventeen digits
always suffice. -/
def coarsest (tie : Tie) (i : Interval) (k : Int) : Nat → Decimal
  | 0 => ⟨0, 0⟩
  | tries + 1 =>
    match gridPoint? tie i k with
    | some d => ⟨d, k⟩
    | none => coarsest tie i (k - 1) tries

/-- Drops the trailing zeros of the digits. -/
def Decimal.trim (d : Decimal) : Decimal :=
  if h : d.digits ≠ 0 ∧ d.digits % 10 = 0 then
    Decimal.trim ⟨d.digits / 10, d.exponent + 1⟩
  else d
termination_by d.digits
decreasing_by omega

/-- The shortest decimal that reads back as the positive double `m · 2 ^ q`: on coarser to finer
grids, the first point in the interval of reals that round to it. -/
def shortest (tie : Tie) (m : Nat) (q : Int) : Decimal :=
  let i := Interval.around m q
  (coarsest tie i (leadingExponent i.mid i.den) 18).trim

end Flowgraph.Number
