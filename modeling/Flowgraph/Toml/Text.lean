import Flowgraph.Json.Token

namespace Flowgraph.Toml

def isBlank (c : Char) : Bool := c = ' ' || c = '\t'

/-- Drops blanks of the same line. -/
def skipBlanks (cs : List Char) : List Char := cs.dropWhile isBlank

/-- What may stand in a comment, and inside quotes unless it has a meaning there. -/
def isPlain (c : Char) : Bool := c = '\t' || (0x20 ≤ c.toNat && c.toNat ≠ 0x7F)

/-- Drops a comment, if there is one. -/
def skipComment : List Char → List Char
  | '#' :: rest => rest.dropWhile isPlain
  | cs => cs

/-- Takes a line break. -/
def lineBreak? : List Char → Option (List Char)
  | '\n' :: rest => some rest
  | '\r' :: '\n' :: rest => some rest
  | _ => none

/-- Takes the rest of a line, which holds nothing but blanks and a comment. -/
def lineEnd? (cs : List Char) : Option (List Char) :=
  match skipComment (skipBlanks cs) with
  | [] => some []
  | left => lineBreak? left

/-- Drops blanks, comments and line breaks, where values may spread over lines. A comment has to
end with its line. -/
def skipLines? : Nat → List Char → Option (List Char)
  | 0, cs => some cs
  | steps + 1, cs =>
    match skipBlanks cs with
    | '#' :: rest => (lineBreak? (skipComment ('#' :: rest))).bind (skipLines? steps)
    | '\n' :: rest => skipLines? steps rest
    | '\r' :: rest => (lineBreak? ('\r' :: rest)).bind (skipLines? steps)
    | left => some left

/-- The character with a given number, if there is one. -/
def scalar? (n : Nat) : Option Char :=
  if h : n.isValidChar then some (Char.ofNatAux n h) else none

/-- Takes a character that is written by its number in so many hexadecimal digits. -/
def numbered? (width : Nat) (cs : List Char) : Option (Char × List Char) := do
  if cs.length < width then none
  else some (← scalar? (← Hexadecimal.number? (cs.take width)), cs.drop width)

/-- Takes what follows a backslash: one letter, or a character number of four or eight digits. -/
def escape? : List Char → Option (Char × List Char)
  | 'u' :: rest => numbered? 4 rest
  | 'U' :: rest => numbered? 8 rest
  | '/' :: _ => none
  | c :: rest => (Json.Token.escaped? c).map (·, rest)
  | [] => none

/-- Takes a quoted string of one line, in which a backslash escapes. -/
def basicString? : Nat → List Char → Option (List Char × List Char)
  | 0, _ => none
  | steps + 1, cs =>
    match cs with
    | '"' :: rest => some ([], rest)
    | '\\' :: rest => do
      let (c, left) ← escape? rest
      let (more, after) ← basicString? steps left
      some (c :: more, after)
    | c :: rest =>
      if isPlain c then (basicString? steps rest).map fun (more, after) => (c :: more, after)
      else none
    | [] => none

/-- Takes a quoted string of one line, in which nothing escapes. -/
def literalString? (cs : List Char) : Option (List Char × List Char) :=
  let inside (c : Char) : Bool := isPlain c && c ≠ '\''
  match cs.dropWhile inside with
  | '\'' :: rest => some (cs.takeWhile inside, rest)
  | _ => none

/-- Drops blanks and line breaks, of which the first thing but blanks is a line break. -/
def continuation? (steps : Nat) (cs : List Char) : Option (List Char) :=
  let rec drop : Nat → List Char → List Char
    | 0, left => left
    | n + 1, left =>
      match lineBreak? (skipBlanks left) with
      | some after => drop n after
      | none => skipBlanks left
  (lineBreak? (skipBlanks cs)).map (drop steps)

/-- Takes a string over several lines. Up to two quotes in a row are content, also just before the
three that close. Escapes, where they are allowed, include one that joins lines. -/
def longString? (quote : Char) (escapes : Bool) : Nat → List Char → Option (List Char × List Char)
  | 0, _ => none
  | steps + 1, cs =>
    let next (taken : List Char) (rest : List Char) :=
      (longString? quote escapes steps rest).map fun (more, after) => (taken ++ more, after)
    match cs with
    | [] => none
    | c :: rest =>
      if c = quote then
        let run := (cs.takeWhile (· = quote)).length
        if run < 3 then next [c] rest
        else
          let content := min (run - 3) 2
          some (List.replicate content quote, cs.drop (content + 3))
      else if escapes ∧ c = '\\' then
        match continuation? steps rest with
        | some after => next [] after
        | none => do
          let (e, after) ← escape? rest
          next [e] after
      else
        match lineBreak? cs with
        | some after => next ['\n'] after
        | none => if isPlain c then next [c] rest else none

/-- Drops one line break, which a long string may start with. -/
def skipFirstBreak (cs : List Char) : List Char := (lineBreak? cs).getD cs

/-- Takes a string of any of the four forms. -/
def string? (steps : Nat) : List Char → Option (String × List Char)
  | '"' :: '"' :: '"' :: rest => named (longString? '"' true steps (skipFirstBreak rest))
  | '"' :: rest => named (basicString? steps rest)
  | '\'' :: '\'' :: '\'' :: rest => named (longString? '\'' false steps (skipFirstBreak rest))
  | '\'' :: rest => named (literalString? rest)
  | _ => none
where
  named (found : Option (List Char × List Char)) : Option (String × List Char) :=
    found.map fun (cs, rest) => (String.ofList cs, rest)

/-- What a bare key is made of. -/
def isBare (c : Char) : Bool := c.isAlphanum || c = '-' || c = '_'

/-- Takes one part of a key. -/
def keyPart? (steps : Nat) (cs : List Char) : Option (String × List Char) :=
  match cs with
  | '"' :: rest => (basicString? steps rest).map fun (part, after) => (String.ofList part, after)
  | '\'' :: rest => (literalString? rest).map fun (part, after) => (String.ofList part, after)
  | _ =>
    match cs.takeWhile isBare with
    | [] => none
    | part => some (String.ofList part, cs.dropWhile isBare)

/-- Takes the parts of a key, with points between them and blanks around them. -/
def keyParts? : Nat → List Char → Option (List String × List Char)
  | 0, _ => none
  | steps + 1, cs => do
    let (part, after) ← keyPart? steps (skipBlanks cs)
    match skipBlanks after with
    | '.' :: rest => do
      let (parts, left) ← keyParts? steps rest
      some (part :: parts, left)
    | rest => some ([part], rest)

/-- How deeply keys and values may nest. -/
def deepest : Nat := 79

/-- Takes a key of at most as many parts as values may nest: the path to its table, and its own
name. -/
def key? (steps : Nat) (cs : List Char) : Option (List String × String × List Char) := do
  let (parts, rest) ← keyParts? steps cs
  if deepest < parts.length then none
  else some (parts.dropLast, ← parts.getLast?, rest)

end Flowgraph.Toml
