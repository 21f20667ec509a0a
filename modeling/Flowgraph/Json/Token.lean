import Flowgraph.Hexadecimal
import Flowgraph.Json.Number

namespace Flowgraph.Json

/-- A token of a text. -/
inductive Token where
  /-- One of the six marks that structure a text: brackets, braces, comma and colon. -/
  | mark (c : Char)
  /-- A word or a number. -/
  | scalar (value : Json)
  /-- A string; `none` if it holds half of a surrogate pair. -/
  | text (content : Option String)
deriving Inhabited

namespace Token

/-- Splits off the leading decimal digits, as numbers. -/
def digits : List Char → List Nat × List Char
  | [] => ([], [])
  | c :: rest =>
    if c.isDigit then
      let (ds, after) := digits rest
      ((c.toNat - '0'.toNat) :: ds, after)
    else ([], c :: rest)

/-- Digits of which there must be one. -/
def digits? (cs : List Char) : Option (List Nat × List Char) :=
  match digits cs with
  | ([], _) => none
  | found => some found

/-- The part after a point, if there is a point. -/
def fraction? : List Char → Option (Option (List Nat) × List Char)
  | '.' :: rest => (digits? rest).map fun (ds, after) => (some ds, after)
  | cs => some (none, cs)

/-- The exponent, if there is one. -/
def exponent? : List Char → Option (Option (Bool × List Nat) × List Char)
  | c :: rest =>
    if c = 'e' ∨ c = 'E' then
      match rest with
      | '-' :: after => (digits? after).map fun (ds, left) => (some (true, ds), left)
      | '+' :: after => (digits? after).map fun (ds, left) => (some (false, ds), left)
      | after => (digits? after).map fun (ds, left) => (some (false, ds), left)
    else some (none, c :: rest)
  | [] => some (none, [])

/-- A numeral: no zero stands before another digit. -/
def numeral? (negative : Bool) (cs : List Char) : Option (Numeral × List Char) := do
  let (whole, afterWhole) ← digits? cs
  if whole.head? = some 0 ∧ 1 < whole.length then none
  else
    let (fraction, afterFraction) ← fraction? afterWhole
    let (exponent, rest) ← exponent? afterFraction
    some (⟨negative, whole, fraction, exponent⟩, rest)

/-- The character of a one-letter escape. -/
def escaped? (c : Char) : Option Char :=
  match c with
  | '"' => some '"'
  | '\\' => some '\\'
  | '/' => some '/'
  | 'b' => some '\x08'
  | 'f' => some '\x0c'
  | 'n' => some '\n'
  | 'r' => some '\r'
  | 't' => some '\t'
  | _ => none

/-- One unit of a string: a character, or a 16-bit unit written by its number. -/
inductive Piece where
  | char (c : Char)
  | unit (n : Nat)

/-- The pieces of a string up to its closing quote. Control characters must be escaped. -/
def pieces? : List Char → Option (List Piece × List Char)
  | [] => none
  | '"' :: rest => some ([], rest)
  | '\\' :: 'u' :: a :: b :: c :: d :: rest => do
    let n ← Hexadecimal.number? [a, b, c, d]
    let (more, after) ← pieces? rest
    some (.unit n :: more, after)
  | '\\' :: c :: rest => do
    let e ← escaped? c
    let (more, after) ← pieces? rest
    some (.char e :: more, after)
  | c :: rest =>
    if c = '\\' ∨ c.toNat < 0x20 then none
    else do
      let (more, after) ← pieces? rest
      some (.char c :: more, after)

/-- Whether a unit is the first half of a surrogate pair. -/
def isHigh (n : Nat) : Bool := 0xD800 ≤ n && n < 0xDC00

/-- Whether a unit is the second half of a surrogate pair. -/
def isLow (n : Nat) : Bool := 0xDC00 ≤ n && n < 0xE000

/-- The characters that pieces denote, joining surrogate pairs; `none` if a half stands alone. -/
def joined? : List Piece → Option (List Char)
  | [] => some []
  | .char c :: rest => (joined? rest).map (c :: ·)
  | .unit high :: .unit low :: rest =>
    if isHigh high then
      if isLow low then
        (joined? rest).map (Char.ofNat (0x10000 + (high - 0xD800) * 0x400 + (low - 0xDC00)) :: ·)
      else none
    else if isLow high then none
    else (joined? (.unit low :: rest)).map (Char.ofNat high :: ·)
  | .unit n :: rest =>
    if isHigh n || isLow n then none else (joined? rest).map (Char.ofNat n :: ·)

/-- The marks that structure a text. -/
def marks : List Char := ['[', ']', '\x7b', '\x7d', ',', ':']

/-- Blanks between tokens. -/
def isBlank (c : Char) : Bool := c = ' ' || c = '\n' || c = '\r' || c = '\t'

/-- The first token of a text that starts with one, and the rest. -/
def next? : List Char → Option (Token × List Char)
  | 'n' :: 'u' :: 'l' :: 'l' :: rest => some (.scalar .null, rest)
  | 't' :: 'r' :: 'u' :: 'e' :: rest => some (.scalar (.bool true), rest)
  | 'f' :: 'a' :: 'l' :: 's' :: 'e' :: rest => some (.scalar (.bool false), rest)
  | '"' :: rest => (pieces? rest).map fun (found, after) =>
      (.text ((joined? found).map String.ofList), after)
  | '-' :: rest => (numeral? true rest).map fun (n, after) => (.scalar n.toJson, after)
  | c :: rest =>
    if c ∈ marks then some (.mark c, rest)
    else (numeral? false (c :: rest)).map fun (n, after) => (.scalar n.toJson, after)
  | [] => none

/-- The tokens of a text, in at most `steps` steps, each of which takes at least one character. -/
def scanWithin? : Nat → List Char → Option (List Token)
  | 0, cs => if (cs.dropWhile isBlank).isEmpty then some [] else none
  | steps + 1, cs =>
    match cs.dropWhile isBlank with
    | [] => some []
    | c :: rest => do
      let (token, after) ← next? (c :: rest)
      let more ← scanWithin? steps after
      some (token :: more)

/-- The tokens of a text. -/
def scan? (text : String) : Option (List Token) :=
  let cs := text.toList
  scanWithin? cs.length cs

end Token

end Flowgraph.Json
