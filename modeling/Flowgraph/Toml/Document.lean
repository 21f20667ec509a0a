import Flowgraph.Toml.Scalar
import Flowgraph.Toml.Table

namespace Flowgraph.Toml

mutual

/-- Takes a value, inside `depth` containers. -/
def value? (steps depth : Nat) (cs : List Char) : Option (Json × List Char) :=
  match steps with
  | 0 => none
  | steps + 1 =>
    match cs with
    | 't' :: 'r' :: 'u' :: 'e' :: rest => some (.bool true, rest)
    | 'f' :: 'a' :: 'l' :: 's' :: 'e' :: rest => some (.bool false, rest)
    | '[' :: rest =>
      if depth < deepest then do
        let (items, after) ← items? steps (depth + 1) (← skipLines? steps rest)
        some (.array items, after)
      else none
    | '\x7b' :: rest =>
      if depth < deepest then do
        let (entries, after) ← inlineTable? steps (depth + 1) (skipBlanks rest)
        some (.object (Item.entriesToJson entries), after)
      else none
    | '"' :: _ | '\'' :: _ => (string? steps cs).map fun (s, rest) => (.string s, rest)
    | _ => number? cs

/-- Takes the items of an array up to its closing bracket. A comma may follow the last one. -/
def items? (steps depth : Nat) (cs : List Char) : Option (List Json × List Char) :=
  match steps, cs with
  | 0, _ => none
  | _, ']' :: rest => some ([], rest)
  | steps + 1, cs => do
    let (item, afterItem) ← value? steps depth cs
    match ← skipLines? steps afterItem with
    | ',' :: rest => do
      let (more, after) ← items? steps depth (← skipLines? steps rest)
      some (item :: more, after)
    | ']' :: rest => some ([item], rest)
    | _ => none

/-- Takes the entries of an inline table up to its closing brace. -/
def inlineTable? (steps depth : Nat) (cs : List Char) : Option (Entries × List Char) :=
  match cs with
  | '\x7d' :: rest => some ([], rest)
  | _ => inlineEntries? steps depth [] cs

/-- Takes one entry or more and adds them to those before. No comma follows the last one. -/
def inlineEntries? (steps depth : Nat) (before : Entries) (cs : List Char) :
    Option (Entries × List Char) :=
  match steps with
  | 0 => none
  | steps + 1 => do
    let (path, name, afterKey) ← key? steps cs
    let (value, afterValue) ← value? steps depth (skipBlanks (← mark? '=' afterKey))
    let entries ← before.assign? name (.value value) path
    match skipBlanks afterValue with
    | ',' :: rest => inlineEntries? steps depth entries rest
    | '\x7d' :: rest => some (entries, rest)
    | _ => none

end

/-- Which header the lines being read stand under. -/
inductive Header where
  | none
  | table (path : List String) (name : String)
  | element (path : List String) (name : String)

/-- What has been read: the tables of earlier headers, and the one of the header that stands. -/
structure Progress where
  root : Entries := []
  header : Header := .none
  current : Entries := []

namespace Progress

/-- Puts the table of the header that stands where it belongs. -/
def close? (p : Progress) : Option Entries :=
  match p.header with
  | .none => some p.current
  | .table path name => (p.root.within? (Entries.close? name p.current) path).map (·.2)
  | .element path name => (p.root.within? (Entries.closeElement? name p.current) path).map (·.2)

/-- Starts the table of a header. -/
def openTable? (p : Progress) (path : List String) (name : String) : Option Progress := do
  let (current, root) ← (← p.close?).within? (Entries.open? name) path
  some { root, header := .table path name, current }

/-- Starts another element of the tables of a header. -/
def openElement? (p : Progress) (path : List String) (name : String) : Option Progress := do
  let (current, root) ← (← p.close?).within? (Entries.openElement? name) path
  some { root, header := .element path name, current }

end Progress

/-- Takes a header line or a line with a key. -/
def line? (steps : Nat) (p : Progress) (cs : List Char) : Option (Progress × List Char) :=
  match cs with
  | '[' :: '[' :: rest => do
    let (path, name, afterKey) ← key? steps rest
    let after ← lineEnd? (← mark? ']' (← mark? ']' afterKey))
    some (← p.openElement? path name, after)
  | '[' :: rest => do
    let (path, name, afterKey) ← key? steps rest
    let after ← lineEnd? (← mark? ']' afterKey)
    some (← p.openTable? path name, after)
  | _ => do
    let (path, name, afterKey) ← key? steps cs
    let (value, afterValue) ← value? steps 0 (skipBlanks (← mark? '=' afterKey))
    let after ← lineEnd? afterValue
    some ({ p with current := ← p.current.assign? name (.value value) path }, after)

/-- Takes lines up to the end of the text. -/
def lines? : Nat → Progress → List Char → Option Progress
  | steps, p, cs =>
    match steps, skipBlanks cs with
    | _, [] => some p
    | 0, _ => none
    | steps + 1, '#' :: rest => (lineEnd? ('#' :: rest)).bind (lines? steps p)
    | steps + 1, '\n' :: rest => lines? steps p rest
    | steps + 1, '\r' :: rest => (lineBreak? ('\r' :: rest)).bind (lines? steps p)
    | steps + 1, left => do
      let (next, after) ← line? steps p left
      lines? steps next after

/-- Reads a document as a tree of the same kind as JSON texts. It may start with a byte order
mark. -/
def parse? (text : String) : Option Json := do
  let cs := text.toList
  let start := if cs.head? = some '\uFEFF' then cs.drop 1 else cs
  let root ← (← lines? (2 * cs.length + 2) {} start).close?
  some (.object (Item.entriesToJson root))

end Flowgraph.Toml
