import Flowgraph.Json.Basic
import Flowgraph.Number.Binary64

namespace Flowgraph.Json

/-- A numeral, taken apart: its digits as numbers, and the sign and digits of its exponent. -/
structure Numeral where
  negative : Bool
  whole : List Nat
  fraction : Option (List Nat)
  exponent : Option (Bool × List Nat)

namespace Numeral

/-- The largest significand. -/
def maxSignificand : Nat := UInt64.size - 1

/-- The largest exponent, in size, that is told from one too large. -/
def maxExponent : Nat := UInt32.size / 2 - 1

/-- Gathers integer digits: the significand, and how many digits did not fit. After the first that
does not fit, none does. -/
def gatherWhole (digits : List Nat) : Nat × Nat :=
  digits.foldl
    (fun (significand, dropped) d =>
      if dropped = 0 ∧ significand * 10 + d ≤ maxSignificand then (significand * 10 + d, 0)
      else (significand, dropped + 1))
    (0, 0)

/-- Adds fraction digits up to the first that does not fit: the significand, and how many were
added. -/
def gatherFraction (significand : Nat) : List Nat → Nat × Nat
  | [] => (significand, 0)
  | d :: rest =>
    if significand * 10 + d ≤ maxSignificand then
      let (total, added) := gatherFraction (significand * 10 + d) rest
      (total, added + 1)
    else (significand, 0)

/-- The value of an exponent's digits, `none` if it is too large to tell. -/
def exponentValue? (digits : List Nat) : Option Nat :=
  digits.foldlM (fun n d => if n * 10 + d ≤ maxExponent then some (n * 10 + d) else none) 0

/-- The double nearest to `10 ^ k`. -/
def tenTo (k : Nat) : Float :=
  Number.ofDecimal false 1 k

/-- Scales by `10 ^ e`, in steps of `10 ^ 308` while the exponent is below that. `none` if the
result leaves the range of doubles. -/
def scale? (x : Float) (e : Int) : Option Float :=
  if h : e < -308 then
    if x == 0 then some x else scale? (x / tenTo 308) (e + 308)
  else if e < 0 then some (x / tenTo e.natAbs)
  else if e ≤ 308 then
    let scaled := x * tenTo e.natAbs
    if scaled.isInf then none else some scaled
  else if x == 0 then some x
  else none
termination_by (-e).toNat
decreasing_by omega

/-- The double that a numeral with a point, an exponent or too many digits denotes. The significand
is scaled by one power of ten in double arithmetic, so a numeral with few digits and a small
exponent denotes the nearest double, and a long one may denote a neighbour of it. -/
def toFloat? (n : Numeral) : Option Float :=
  let (whole, dropped) := gatherWhole n.whole
  let (significand, added) := gatherFraction whole (n.fraction.getD [])
  let unscaled := Number.ofInt significand
  let start : Int := dropped - added
  let magnitude? : Option Float :=
    match n.exponent with
    | none => scale? unscaled start
    | some (negative, digits) =>
      match exponentValue? digits with
      | some e => scale? unscaled (if negative then start - e else start + e)
      | none => if significand ≠ 0 ∧ !negative then none else some 0
  magnitude?.map fun x => if n.negative then -x else x

/-- The integer that a numeral without point and exponent denotes, if it is in range. A negative
zero is no integer. -/
def toInt? (n : Numeral) : Option Int :=
  let (whole, dropped) := gatherWhole n.whole
  if n.fraction.isSome || n.exponent.isSome || dropped ≠ 0 then none
  else if !n.negative then some whole
  else if 0 < whole ∧ whole ≤ UInt64.size / 2 then some (-whole)
  else none

/-- What a numeral denotes, which is nothing outside the range of doubles. -/
def toJson (n : Numeral) : Json :=
  match n.toInt? with
  | some i => .int i
  | none =>
    match n.toFloat? with
    | some x => .float x
    | none => .unreadable

end Numeral

end Flowgraph.Json
