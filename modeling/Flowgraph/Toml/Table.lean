import Flowgraph.Json.Basic

namespace Flowgraph.Toml

/-- How a table came to be, which decides what may still be added to it. -/
inductive Origin where
  | header
  | passed
  | dotted
deriving DecidableEq, Repr

/-- What stands under a name. -/
inductive Item where
  /-- Complete: nothing can be added. -/
  | value (j : Json)
  | table (origin : Origin) (entries : List (String × Item))
  /-- Tables of one header, of which the last can be added to. -/
  | tables (elements : List (List (String × Item)))
deriving Inhabited

/-- The entries of a table, in the order in which they came. -/
abbrev Entries := List (String × Item)

namespace Item

mutual

def toJson : Item → Json
  | .value j => j
  | .table _ entries => .object (entriesToJson entries)
  | .tables elements => .array (elementsToJson elements)

def entriesToJson : List (String × Item) → List (String × Json)
  | [] => []
  | (name, item) :: rest => (name, item.toJson) :: entriesToJson rest

def elementsToJson : List (List (String × Item)) → List Json
  | [] => []
  | entries :: rest => .object (entriesToJson entries) :: elementsToJson rest

end

end Item

namespace Entries

/-- Replaces the item of a name that is present. -/
def replace (entries : Entries) (name : String) (item : Item) : Entries :=
  entries.map fun entry => if entry.1 = name then (name, item) else entry

/-- Adds an entry whose name is not present. -/
def add? (entries : Entries) (name : String) (item : Item) : Option Entries :=
  if (entries.lookup name).isSome then none else some (entries ++ [(name, item)])

/-- Adds a value under a key with a path. The path leads through tables that have no header of
their own, and ends at one that such keys alone have made. -/
def assign? (name : String) (item : Item) : (path : List String) → Entries → Option Entries
  | [], entries => entries.add? name item
  | step :: path, entries =>
    match entries.lookup step with
    | none => do some (entries ++ [(step, .table .dotted (← assign? name item path []))])
    | some (.table origin inner) =>
      if origin = .header ∨ (path = [] ∧ origin ≠ .dotted) then none
      else do some (entries.replace step (.table origin (← assign? name item path inner)))
    | some (.tables elements) =>
      match path, elements.getLast? with
      | _ :: _, some inner => do
        let changed ← assign? name item path inner
        some (entries.replace step (.tables (elements.dropLast ++ [changed])))
      | _, _ => none
    | some (.value _) => none

/-- Changes the table at the end of a header's path, making the tables on the way that are
missing. -/
def within? {α : Type} (change : Entries → Option (α × Entries)) :
    (path : List String) → Entries → Option (α × Entries)
  | [], entries => change entries
  | step :: path, entries =>
    match entries.lookup step with
    | none => do
      let (a, inner) ← within? change path []
      some (a, entries ++ [(step, .table .passed inner)])
    | some (.table origin inner) => do
      let (a, changed) ← within? change path inner
      some (a, entries.replace step (.table origin changed))
    | some (.tables elements) => do
      let (a, changed) ← within? change path (← elements.getLast?)
      some (a, entries.replace step (.tables (elements.dropLast ++ [changed])))
    | some (.value _) => none

/-- Takes out the table that a header opens: what was put there on the way to other headers, or
nothing yet. -/
def open? (name : String) (entries : Entries) : Option (Entries × Entries) :=
  match entries.lookup name with
  | none => some ([], entries)
  | some (.table .passed inner) => some (inner, entries.filter (·.1 ≠ name))
  | some _ => none

/-- Checks that a header may add an element to the tables of a name. -/
def openElement? (name : String) (entries : Entries) : Option (Entries × Entries) :=
  match entries.lookup name with
  | none | some (.tables _) => some ([], entries)
  | some _ => none

/-- Puts a table back under its header. -/
def close? (name : String) (table : Entries) (entries : Entries) : Option (Unit × Entries) := do
  some ((), ← entries.add? name (.table .header table))

/-- Puts a table at the end of those of its header. -/
def closeElement? (name : String) (table : Entries) (entries : Entries) :
    Option (Unit × Entries) :=
  match entries.lookup name with
  | none => some ((), entries ++ [(name, .tables [table])])
  | some (.tables elements) => some ((), entries.replace name (.tables (elements ++ [table])))
  | some _ => none

end Entries

end Flowgraph.Toml
