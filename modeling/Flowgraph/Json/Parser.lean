import Flowgraph.Json.Token

namespace Flowgraph.Json

/-- A container at the given depth, or nothing readable past the deepest. -/
def atDepth (depth : Nat) (container : Json) : Json :=
  if depth ≤ deepest then container else .unreadable

/-- An object, unless one of its names is unreadable. -/
def ofEntries (entries : List (Option String × Json)) : Json :=
  match entries.mapM (fun (name, value) => name.map (·, value)) with
  | some named => .object named
  | none => .unreadable

mutual

/-- One value, inside `depth` containers. Every value starts with a token, so the number of tokens
is fuel enough. -/
def value? (fuel : Nat) (depth : Nat) (tokens : List Token) : Option (Json × List Token) :=
  match fuel, tokens with
  | _, .scalar j :: rest => some (j, rest)
  | _, .text (some s) :: rest => some (.string s, rest)
  | _, .text none :: rest => some (.unreadable, rest)
  | _, .mark '[' :: .mark ']' :: rest => some (atDepth (depth + 1) (.array []), rest)
  | _, .mark '\x7b' :: .mark '\x7d' :: rest => some (atDepth (depth + 1) (.object []), rest)
  | fuel + 1, .mark '[' :: rest => do
    let (items, after) ← items? fuel (depth + 1) rest
    some (atDepth (depth + 1) (.array items), after)
  | fuel + 1, .mark '\x7b' :: rest => do
    let (entries, after) ← entries? fuel (depth + 1) rest
    some (atDepth (depth + 1) (ofEntries entries), after)
  | _, _ => none

/-- The items of an array up to its closing bracket, of which there is at least one. -/
def items? (fuel : Nat) (depth : Nat) (tokens : List Token) : Option (List Json × List Token) :=
  match fuel with
  | 0 => none
  | fuel + 1 => do
    let (item, after) ← value? fuel depth tokens
    match after with
    | .mark ']' :: rest => some ([item], rest)
    | .mark ',' :: rest => do
      let (more, left) ← items? fuel depth rest
      some (item :: more, left)
    | _ => none

/-- The entries of an object up to its closing brace, of which there is at least one. -/
def entries? (fuel : Nat) (depth : Nat) (tokens : List Token) :
    Option (List (Option String × Json) × List Token) :=
  match fuel, tokens with
  | fuel + 1, .text name :: .mark ':' :: tail => do
    let (value, after) ← value? fuel depth tail
    match after with
    | .mark '\x7d' :: rest => some ([(name, value)], rest)
    | .mark ',' :: rest => do
      let (more, left) ← entries? fuel depth rest
      some ((name, value) :: more, left)
    | _ => none
  | _, _ => none

end

/-- Reads a text, which must be one value and nothing else. -/
def parse? (text : String) : Option Json := do
  let tokens ← Token.scan? text
  match ← value? (2 * tokens.length + 1) 0 tokens with
  | (j, []) => some j
  | _ => none

end Flowgraph.Json
