import Flowgraph.Number.Binary64
import Flowgraph.Toml.Text

namespace Flowgraph.Toml

/-- Takes digits, between which single underscores may stand. -/
def digits? (isDigit : Char → Bool) : List Char → Option (List Char × List Char)
  | [] => none
  | c :: rest =>
    if isDigit c then
      match rest with
      | '_' :: after => (digits? isDigit after).map fun (ds, left) => (c :: ds, left)
      | after =>
        match digits? isDigit after with
        | some (ds, left) => some (c :: ds, left)
        | none => if (after.head?.map isDigit).getD false then none else some ([c], after)
    else none

/-- Takes a sign, if there is one: whether it is a minus. -/
def sign : List Char → Bool × List Char
  | '-' :: rest => (true, rest)
  | '+' :: rest => (false, rest)
  | cs => (false, cs)

/-- The number that digits write in a base. -/
def numberOf (base : Nat) (ds : List Char) : Nat :=
  ds.foldl (fun n d => base * n + (Hexadecimal.value? d).getD 0) 0

/-- Takes the digits of a whole number: no zero stands before another digit. -/
def wholeDigits? (cs : List Char) : Option (List Char × List Char) :=
  match cs with
  | '0' :: rest => some (['0'], rest)
  | _ => digits? Char.isDigit cs

/-- An integer of 64 bits. -/
def integer? (i : Int) : Option Json :=
  if Int64.minValue.toInt ≤ i ∧ i ≤ Int64.maxValue.toInt then some (.int i) else none

/-- Takes an integer in another base than ten. -/
def basedInteger? (base : Nat) (isDigit : Char → Bool) (cs : List Char) :
    Option (Json × List Char) := do
  let (ds, rest) ← digits? isDigit cs
  some (← integer? (numberOf base ds), rest)

/-- Takes a fraction, if there is one. -/
def fraction? : List Char → Option (Option (List Char) × List Char)
  | '.' :: rest => (digits? Char.isDigit rest).map fun (ds, after) => (some ds, after)
  | cs => some (none, cs)

/-- Takes an exponent, if there is one. -/
def exponent? : List Char → Option (Option Int × List Char)
  | [] => some (none, [])
  | c :: rest =>
    if c = 'e' ∨ c = 'E' then do
      let (negative, after) := sign rest
      let (ds, left) ← digits? Char.isDigit after
      let size : Int := numberOf 10 ds
      some (some (if negative then -size else size), left)
    else some (none, c :: rest)

/-- Takes a decimal number. One with a fraction or an exponent is a double; a double too large is
refused, but one too far below zero is negative infinity. -/
def decimal? (cs : List Char) : Option (Json × List Char) := do
  let (negative, afterSign) := sign cs
  let (whole, afterWhole) ← wholeDigits? afterSign
  let (fraction, afterFraction) ← fraction? afterWhole
  let (exponent, rest) ← exponent? afterFraction
  if fraction.isNone && exponent.isNone then
    let size : Int := numberOf 10 whole
    some (← integer? (if negative then -size else size), rest)
  else
    let places := fraction.getD []
    let x := Number.ofDecimal negative (numberOf 10 (whole ++ places))
      (exponent.getD 0 - places.length)
    if x.isInf && !negative then none else some (.float x, rest)

/-- Takes infinity or a NaN. -/
def special? (cs : List Char) : Option (Json × List Char) :=
  let (negative, afterSign) := sign cs
  match afterSign with
  | 'i' :: 'n' :: 'f' :: rest =>
    some (.float (Binary64.round negative 1 1024), rest)
  | 'n' :: 'a' :: 'n' :: rest => some (.float (0 / 0), rest)
  | _ => none

/-- Takes a number of exactly so many digits within bounds. -/
def fixed? (width low high : Nat) (cs : List Char) : Option (Nat × List Char) :=
  let ds := cs.take width
  let n := numberOf 10 ds
  if ds.length = width ∧ ds.all Char.isDigit ∧ low ≤ n ∧ n ≤ high then some (n, cs.drop width)
  else none

/-- Takes one given character. -/
def mark? (c : Char) : List Char → Option (List Char)
  | d :: rest => if c = d then some rest else none
  | [] => none

/-- A number with zeros before it to a width. -/
def padded (width n : Nat) : String :=
  let ds := toString n
  String.ofList (List.replicate (width - ds.length) '0') ++ ds

/-- How many days a month has. -/
def daysIn (year month : Nat) : Nat :=
  if month = 2 then
    if year % 4 = 0 ∧ (year % 100 ≠ 0 ∨ year % 400 = 0) then 29 else 28
  else if month ∈ [4, 6, 9, 11] then 30
  else 31

/-- Takes a date, as text. -/
def date? (cs : List Char) : Option (String × List Char) := do
  let (year, cs) ← fixed? 4 0 9999 cs
  let (month, cs) ← fixed? 2 1 12 (← mark? '-' cs)
  let (day, cs) ← fixed? 2 1 31 (← mark? '-' cs)
  if daysIn year month < day then none
  else some (s!"{padded 4 year}-{padded 2 month}-{padded 2 day}", cs)

/-- The text of a fraction of a second: at most nine places, and no zeros at the end. -/
def secondsFraction (ds : List Char) : String :=
  let kept := ((ds.take 9).reverse.dropWhile (· = '0')).reverse
  if kept.isEmpty then "" else "." ++ String.ofList kept

/-- Takes a time of day, as text. -/
def time? (cs : List Char) : Option (String × List Char) := do
  let (hour, cs) ← fixed? 2 0 23 cs
  let (minute, cs) ← fixed? 2 0 59 (← mark? ':' cs)
  let (second, cs) ← fixed? 2 0 60 (← mark? ':' cs)
  let text := s!"{padded 2 hour}:{padded 2 minute}:{padded 2 second}"
  match cs with
  | '.' :: rest =>
    match rest.takeWhile Char.isDigit with
    | [] => none
    | ds => some (text ++ secondsFraction ds, rest.dropWhile Char.isDigit)
  | _ => some (text, cs)

/-- Takes an offset from universal time, as text, if there is one. No offset is negative zero. -/
def offset? : List Char → Option (String × List Char)
  | [] => some ("", [])
  | c :: rest =>
    if c = 'Z' ∨ c = 'z' then some ("Z", rest)
    else if c = '+' ∨ c = '-' then do
      let (hour, cs) ← fixed? 2 0 23 rest
      let (minute, cs) ← fixed? 2 0 59 (← mark? ':' cs)
      let negative : Bool := c = '-' && (hour ≠ 0 || minute ≠ 0)
      some ((if negative then "-" else "+") ++ s!"{padded 2 hour}:{padded 2 minute}", cs)
    else some ("", c :: rest)

/-- Takes what may follow a date: a time, and then an offset. -/
def afterDate? (cs : List Char) : Option (String × List Char) :=
  match cs with
  | c :: rest =>
    if c = 'T' ∨ c = 't' ∨ c = ' ' then
      match time? rest with
      | some (time, left) => do
        let (offset, after) ← offset? left
        some ("T" ++ time ++ offset, after)
      | none => some ("", cs)
    else some ("", cs)
  | [] => some ("", [])

/-- The name under which a date or a time is kept. -/
def momentName : String := "$__toml_private_datetime"

/-- Takes a date, a time, or both. -/
def moment? (cs : List Char) : Option (Json × List Char) :=
  let kept (text : String) : Json := .object [(momentName, .string text)]
  match date? cs with
  | some (date, left) => (afterDate? left).map fun (more, rest) => (kept (date ++ more), rest)
  | none => (time? cs).map fun (time, rest) => (kept time, rest)

/-- Takes a number, a date or a time. -/
def number? (cs : List Char) : Option (Json × List Char) :=
  match moment? cs with
  | some found => some found
  | none =>
    match cs with
    | '0' :: 'x' :: rest => basedInteger? 16 (fun c => (Hexadecimal.value? c).isSome) rest
    | '0' :: 'o' :: rest => basedInteger? 8 (fun c => '0' ≤ c && c ≤ '7') rest
    | '0' :: 'b' :: rest => basedInteger? 2 (fun c => c = '0' || c = '1') rest
    | _ =>
      match special? cs with
      | some found => some found
      | none => decimal? cs

end Flowgraph.Toml
