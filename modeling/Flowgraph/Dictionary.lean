namespace Flowgraph

/-- Entries in strictly increasing key order; `Dictionary.Sorted` states the order. Keys are ordered
by code point, as the bytes of their UTF-8 are. Two dictionaries with the same entries are the same
list. -/
abbrev Dictionary (α : Type) := List (String × α)

namespace Dictionary

variable {α β : Type}

/-- The keys are strictly increasing, so no key occurs twice. -/
def Sorted (entries : List (String × α)) : Prop :=
  entries.Pairwise fun a b => a.1 < b.1

/-- Sets the value of a key, in place if the key is present. -/
def insert (key : String) (value : α) : List (String × α) → Dictionary α
  | [] => [(key, value)]
  | (k, v) :: rest =>
    if key < k then (key, value) :: (k, v) :: rest
    else if key = k then (key, value) :: rest
    else (k, v) :: insert key value rest

/-- Removes a key. -/
def erase (key : String) (entries : List (String × α)) : Dictionary α :=
  entries.filter fun entry => entry.1 ≠ key

/-- The value of a key. In a plain list of entries this is the first one. -/
def get? (entries : List (String × α)) (key : String) : Option α :=
  entries.lookup key

/-- The value of the last entry of a key, which is the one that `ofList` keeps. -/
def last? (entries : List (String × α)) (key : String) : Option α :=
  entries.reverse.lookup key

/-- Collects entries in any order; of several entries with one key the last wins. -/
def ofList (entries : List (String × α)) : Dictionary α :=
  entries.foldl (fun dictionary entry => insert entry.1 entry.2 dictionary) []

/-- The keys, in order. -/
def keys (entries : List (String × α)) : List String :=
  entries.map (·.1)

/-- What is in a dictionary after an insertion is the new entry or was there before. -/
theorem mem_insert {key : String} {value : α} {entries : List (String × α)} {x : String × α}
    (member : x ∈ insert key value entries) : x = (key, value) ∨ x ∈ entries := by
  induction entries with
  | nil => exact Or.inl (by simpa [insert] using member)
  | cons entry rest ih =>
    obtain ⟨k, v⟩ := entry
    unfold insert at member
    split at member
    · simpa using member
    · split at member
      · rcases List.mem_cons.1 member with here | there
        · exact Or.inl here
        · exact Or.inr (List.mem_cons_of_mem _ there)
      · rcases List.mem_cons.1 member with here | there
        · exact Or.inr (here ▸ List.mem_cons_self)
        · exact (ih there).imp id (List.mem_cons_of_mem _)

/-- Inserting keeps the keys strictly increasing. -/
theorem sorted_insert {key : String} {value : α} {entries : List (String × α)}
    (sorted : Sorted entries) : Sorted (insert key value entries) := by
  induction entries with
  | nil => simp [insert, Sorted]
  | cons entry rest ih =>
    obtain ⟨k, v⟩ := entry
    obtain ⟨head, tail⟩ := List.pairwise_cons.1 sorted
    unfold insert
    split
    · rename_i below
      refine List.pairwise_cons.2 ⟨fun x member => ?_, sorted⟩
      rcases List.mem_cons.1 member with here | there
      · exact here ▸ below
      · exact String.lt_trans below (head x there)
    · rename_i notBelow
      split
      · rename_i same
        subst same
        exact List.pairwise_cons.2 ⟨head, tail⟩
      · rename_i different
        refine List.pairwise_cons.2 ⟨fun x member => ?_, ih tail⟩
        rcases mem_insert member with here | there
        · subst here
          rcases String.le_total k key with le | le
          · exact Decidable.byContradiction fun notLt =>
              different (String.le_antisymm (String.not_lt.1 notLt) le)
          · exact absurd (String.le_antisymm le (String.not_lt.1 notBelow)) different
        · exact head x there

/-- Inserting entry after entry keeps the keys strictly increasing. -/
theorem sorted_foldl_insert (entries : List (String × α)) {start : List (String × α)}
    (sorted : Sorted start) :
    Sorted (entries.foldl (fun dictionary entry => insert entry.1 entry.2 dictionary) start) := by
  induction entries generalizing start with
  | nil => exact sorted
  | cons entry rest ih => exact ih (sorted_insert sorted)

/-- Collected entries are a dictionary, whatever their order and repetitions were. -/
theorem sorted_ofList (entries : List (String × α)) : Sorted (ofList entries) :=
  sorted_foldl_insert entries List.Pairwise.nil

end Dictionary

end Flowgraph
