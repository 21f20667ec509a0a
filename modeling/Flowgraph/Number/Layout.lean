import Flowgraph.Number.Shortest

namespace Flowgraph.Number

/-- The decisions of one way to write doubles: which exponents are written positionally, how a whole
number ends, how an exponent is written. -/
structure Layout where
  /-- Which of two equally near decimals is taken. -/
  tie : Tie
  /-- Whether a number whose leading digit has this exponent is written positionally. -/
  positional : Int → Bool
  /-- What ends a whole number that is written positionally. -/
  wholeEnd : String
  nan : String
  infinity : String

/-- Zeros, as many as asked for. -/
def zeros (n : Nat) : String :=
  String.ofList (List.replicate n '0')

/-- Digits with a point so that the leading one has the given exponent. -/
def positionalText (wholeEnd : String) (d : Decimal) : String :=
  let digits := toString d.digits
  let leading : Int := digits.length + d.exponent - 1
  if 0 ≤ d.exponent then digits ++ zeros d.exponent.toNat ++ wholeEnd
  else if leading < 0 then "0." ++ zeros (-leading - 1).toNat ++ digits
  else
    let chars := digits.toList
    let before := (leading + 1).toNat
    String.ofList (chars.take before) ++ "." ++ String.ofList (chars.drop before)

/-- One digit, a point before any others, and a signed exponent. -/
def exponentText (d : Decimal) : String :=
  let digits := (toString d.digits).toList
  let leading : Int := digits.length + d.exponent - 1
  let rest := digits.drop 1
  let mantissa := digits.take 1 ++ (if rest.isEmpty then [] else '.' :: rest)
  let sign := if leading < 0 then "-" else "+"
  String.ofList mantissa ++ "e" ++ sign ++ toString leading.natAbs

namespace Layout

/-- The text of the positive number `m · 2 ^ q`, or of zero. -/
def writeFinite (layout : Layout) (m : Nat) (q : Int) : String :=
  if m = 0 then "0" ++ layout.wholeEnd
  else
    let d := shortest layout.tie m q
    if layout.positional ((toString d.digits).length + d.exponent - 1) then
      positionalText layout.wholeEnd d
    else exponentText d

/-- The text of a double. -/
def write (layout : Layout) (x : Float) : String :=
  match Binary64.ofFloat x with
  | .nan => layout.nan
  | .infinite negative => (if negative then "-" else "") ++ layout.infinity
  | .finite negative m q => (if negative then "-" else "") ++ layout.writeFinite m q

end Layout

/-- Plain text: never an exponent, and a whole number has no point. -/
def plain : Layout where
  tie := .up
  positional := fun _ => true
  wholeEnd := ""
  nan := "NaN"
  infinity := "inf"

end Flowgraph.Number
