import Flowgraph.Json.Basic
import Flowgraph.Number.Layout

namespace Flowgraph.Json

/-- Doubles in JSON text: the shortest digits that read back, written positionally for exponents
from -5 to 15. -/
def floatLayout : Number.Layout where
  tie := .toEven
  positional := fun e => -5 ≤ e && e < 16
  wholeEnd := ".0"
  nan := "null"
  infinity := "null"

def floatText (x : Float) : String :=
  if x.isFinite then floatLayout.write x else "null"

/-- A character inside a string: quotes, backslashes and controls are escaped. -/
def charText (c : Char) : List Char :=
  match c with
  | '"' => ['\\', '"']
  | '\\' => ['\\', '\\']
  | '\x08' => ['\\', 'b']
  | '\x0c' => ['\\', 'f']
  | '\n' => ['\\', 'n']
  | '\r' => ['\\', 'r']
  | '\t' => ['\\', 't']
  | c =>
    if c.toNat < 0x20 then
      ['\\', 'u', '0', '0', Nat.digitChar (c.toNat / 16), Nat.digitChar (c.toNat % 16)]
    else [c]

def stringText (s : String) : String :=
  "\"" ++ String.ofList (s.toList.flatMap charText) ++ "\""

/-- The text of a value that is no container. -/
def scalarText : Json → String
  | .bool b => if b then "true" else "false"
  | .int i => toString i
  | .float x => floatText x
  | .string s => stringText s
  | _ => "null"

mutual

/-- Text without blanks. -/
def compact : Json → String
  | .array items => "[" ++ String.intercalate "," (compactItems items) ++ "]"
  | .object entries => "\x7b" ++ String.intercalate "," (compactEntries entries) ++ "\x7d"
  | j => scalarText j

def compactItems : List Json → List String
  | [] => []
  | item :: rest => item.compact :: compactItems rest

def compactEntries : List (String × Json) → List String
  | [] => []
  | (name, value) :: rest => (stringText name ++ ":" ++ value.compact) :: compactEntries rest

end

/-- A new line at the given depth. -/
def newline (depth : Nat) : String :=
  "\n" ++ String.ofList (List.replicate (2 * depth) ' ')

/-- The members of a container, each on a line of its own. -/
def block (depth : Nat) (opening closing : String) (members : List String) : String :=
  if members.isEmpty then opening ++ closing
  else
    opening ++ newline (depth + 1) ++ String.intercalate ("," ++ newline (depth + 1)) members
      ++ newline depth ++ closing

mutual

/-- Text with each member on a line of its own, inside `depth` containers. -/
def indented (depth : Nat) : Json → String
  | .array items => block depth "[" "]" (indentedItems (depth + 1) items)
  | .object entries => block depth "\x7b" "\x7d" (indentedEntries (depth + 1) entries)
  | j => scalarText j

def indentedItems (depth : Nat) : List Json → List String
  | [] => []
  | item :: rest => item.indented depth :: indentedItems depth rest

def indentedEntries (depth : Nat) : List (String × Json) → List String
  | [] => []
  | (name, value) :: rest =>
    (stringText name ++ ": " ++ value.indented depth) :: indentedEntries depth rest

end

/-- Text indented by two blanks. -/
def pretty (j : Json) : String := j.indented 0

end Flowgraph.Json
