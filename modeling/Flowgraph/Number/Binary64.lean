namespace Flowgraph

/-- A double by what it denotes: a sign, a natural number and a power of two, so that questions
about doubles become questions about integers. -/
inductive Binary64 where
  | nan
  | infinite (negative : Bool)
  /-- The number `± m · 2 ^ q`; both zeros have `m = 0`. -/
  | finite (negative : Bool) (m : Nat) (q : Int)
deriving DecidableEq, Repr

namespace Binary64

/-- Reads the fields of the bits: sign, biased exponent, fraction. -/
def ofBits (bits : Nat) : Binary64 :=
  let negative := bits.testBit 63
  let biased := (bits >>> 52) % 2048
  let fraction := bits % (1 <<< 52)
  if biased = 2047 then
    if fraction = 0 then .infinite negative else .nan
  else if biased = 0 then .finite negative fraction (-1074)
  else .finite negative (fraction + (1 <<< 52)) (biased - 1075)

def ofFloat (x : Float) : Binary64 :=
  ofBits x.toBits.toNat

/-- The integer that a number equals, if it equals one. -/
def toInt? : Binary64 → Option Int
  | .nan | .infinite _ => none
  | .finite negative m q =>
    let signed (n : Nat) : Int := if negative then -n else n
    if 0 ≤ q then some (signed (m <<< q.toNat))
    else if m % (1 <<< (-q).toNat) = 0 then some (signed (m >>> (-q).toNat))
    else none

/-- The quotient rounded to the nearest integer, a half to the even one. -/
def halfEven (m divisor : Nat) : Nat :=
  let quotient := m / divisor
  let twice := 2 * (m % divisor)
  if twice < divisor then quotient
  else if divisor < twice then quotient + 1
  else quotient + quotient % 2

/-- The bits of positive infinity. -/
def infinityBits : Nat := 2047 <<< 52

/-- The bits of the double nearest to `m · 2 ^ q`, a half to the even one. A carry out of the
fraction runs into the exponent field, which is where it belongs; past the largest double that
field becomes that of infinity. -/
def roundBits (m : Nat) (q : Int) : Nat :=
  if m = 0 then 0
  else
    let top : Int := m.log2 + q
    let unit : Int := max (top - 52) (-1074)
    let scaled := if q < unit then halfEven m (1 <<< (unit - q).toNat) else m <<< (q - unit).toNat
    if 971 < unit then infinityBits
    else min (((unit + 1074).toNat <<< 52) + scaled) infinityBits

/-- The double nearest to `± m · 2 ^ q`. -/
def round (negative : Bool) (m : Nat) (q : Int) : Float :=
  Float.ofBits (.ofNat ((if negative then 1 <<< 63 else 0) + roundBits m q))

end Binary64

namespace Number

/-- The double nearest to an integer; zero becomes positive zero. -/
def ofInt (i : Int) : Float :=
  Binary64.round (i < 0) i.natAbs 0

/-- The double nearest to `± num / den`. The quotient is taken to at least 64 bits, and an odd last
bit stands for whatever was cut off. -/
def ofRatio (negative : Bool) (num den : Nat) : Float :=
  let extra := 64 + den.log2 - num.log2
  let scaled := num <<< extra
  let sticky := if scaled % den = 0 then 0 else 1
  Binary64.round negative (2 * (scaled / den) + sticky) (-(extra : Int) - 1)

/-- `10 ^ k` as a fraction: a numerator and a denominator, one of which is 1. -/
def tenPower (k : Int) : Nat × Nat :=
  (Nat.pow 10 k.toNat, Nat.pow 10 (-k).toNat)

/-- The double nearest to `± digits · 10 ^ e`. Exponents far outside the range of doubles are
settled without computing the power. -/
def ofDecimal (negative : Bool) (digits : Nat) (e : Int) : Float :=
  let bits : Int := digits.log2
  if digits = 0 then Binary64.round negative 0 0
  else if 400 < e then Binary64.round negative 1 1024
  else if e < -400 - bits then Binary64.round negative 0 0
  else
    let (up, down) := tenPower e
    ofRatio negative (digits * up) down

end Number

end Flowgraph
