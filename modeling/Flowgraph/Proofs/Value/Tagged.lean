import Flowgraph.Proofs.Value.Literal
import Flowgraph.Value.Tagged

namespace Flowgraph

namespace Json

mutual

/-- How deeply containers nest in a tree. -/
def depth : Json → Nat
  | .array items => depthItems items + 1
  | .object entries => depthEntries entries + 1
  | _ => 0

def depthItems : List Json → Nat
  | [] => 0
  | item :: rest => max item.depth (depthItems rest)

def depthEntries : List (String × Json) → Nat
  | [] => 0
  | (_, value) :: rest => max value.depth (depthEntries rest)

end

theorem depthEntries_le_iff {entries : List (String × Json)} {n : Nat} :
    depthEntries entries ≤ n ↔ ∀ entry ∈ entries, entry.2.depth ≤ n := by
  induction entries with
  | nil => simp [depthEntries]
  | cons entry rest ih => rw [depthEntries, Nat.max_le, ih, List.forall_mem_cons]

end Json

namespace Value

mutual

/-- How deeply containers nest in a value. A handle counts as one, since its literal is an
object. -/
def depth : Value → Nat
  | .array items => depthItems items + 1
  | .object _ fields => depthFields fields + 1
  | .handle _ => 1
  | _ => 0

def depthItems : List Value → Nat
  | [] => 0
  | item :: rest => max item.depth (depthItems rest)

def depthFields : List (String × Value) → Nat
  | [] => 0
  | (_, value) :: rest => max value.depth (depthFields rest)

end

theorem depthFields_le_iff {fields : List (String × Value)} {n : Nat} :
    depthFields fields ≤ n ↔ ∀ entry ∈ fields, entry.2.depth ≤ n := by
  induction fields with
  | nil => simp [depthFields]
  | cons entry rest ih => rw [depthFields, Nat.max_le, ih, List.forall_mem_cons]

mutual

/-- The literal of a value does not go deeper than the value. -/
theorem depth_toLiteral_le (v : Value) : v.toLiteral.depth ≤ v.depth := by
  cases v with
  | float x =>
    unfold toLiteral
    split <;> exact Nat.le_refl 0
  | array items => exact Nat.succ_le_succ (depthItems_toLiterals_le items)
  | object typeId fields =>
    have below := depthEntries_toLiteralFields_le fields
    cases typeId with
    | none => exact Nat.succ_le_succ below
    | some typeId =>
      refine Nat.succ_le_succ (Json.depthEntries_le_iff.mpr fun entry member => ?_)
      rcases Dictionary.mem_insert member with rfl | old
      · exact Nat.zero_le _
      · exact Json.depthEntries_le_iff.mp below entry old
  | handle h => exact Nat.le_refl 1
  | _ => exact Nat.le_refl 0

theorem depthItems_toLiterals_le (items : List Value) :
    Json.depthItems (toLiterals items) ≤ depthItems items := by
  cases items with
  | nil => exact Nat.le_refl 0
  | cons item rest =>
    have first := depth_toLiteral_le item
    have others := depthItems_toLiterals_le rest
    simp only [toLiterals, Json.depthItems, depthItems]
    omega

theorem depthEntries_toLiteralFields_le (fields : List (String × Value)) :
    Json.depthEntries (toLiteralFields fields) ≤ depthFields fields := by
  match fields with
  | [] => exact Nat.le_refl 0
  | (name, value) :: rest =>
    have first := depth_toLiteral_le value
    have others := depthEntries_toLiteralFields_le rest
    simp only [toLiteralFields, Json.depthEntries, depthFields]
    omega

end

theorem readableEntries_iff {entries : List (String × Json)} :
    Json.readableEntries entries = true ↔ ∀ entry ∈ entries, entry.2.readable = true := by
  induction entries with
  | nil => simp [Json.readableEntries]
  | cons entry rest ih => simp [Json.readableEntries, ih]

theorem normalizeEntries_eq_self {entries : List (String × Json)}
    (normal : ∀ entry ∈ entries, entry.2.normalize = entry.2) :
    Json.normalizeEntries entries = entries := by
  induction entries with
  | nil => rfl
  | cons entry rest ih =>
    obtain ⟨first, others⟩ := List.forall_mem_cons.mp normal
    rw [Json.normalizeEntries, first, ih others]

/-- An object with its names in order is as readable and as normal as its entries. -/
theorem normal_object {entries : List (String × Json)} (sorted : Dictionary.Sorted entries)
    (normal : ∀ entry ∈ entries, entry.2.readable = true ∧ entry.2.normalize = entry.2) :
    (Json.object entries).readable = true ∧ (Json.object entries).normalize = .object entries := by
  refine ⟨readableEntries_iff.mpr fun entry member => (normal entry member).1, ?_⟩
  rw [Json.normalize, normalizeEntries_eq_self fun entry member => (normal entry member).2,
    Dictionary.ofList_of_sorted sorted]

mutual

/-- A literal is read as it was written: nothing of it is unreadable, and it is normal. -/
theorem normal_toLiteral {v : Value} (ordered : v.Ordered) :
    v.toLiteral.readable = true ∧ v.toLiteral.normalize = v.toLiteral := by
  cases v with
  | float x =>
    unfold toLiteral
    split
    · rename_i finite
      exact ⟨rfl, if_pos finite⟩
    · exact ⟨rfl, rfl⟩
  | array items =>
    obtain ⟨readable, normal⟩ := normal_toLiterals ordered
    exact ⟨readable, congrArg Json.array normal⟩
  | object typeId fields =>
    obtain ⟨sorted, values⟩ := ordered
    have written := normal_toLiteralFields values
    have keys := sorted_toLiteralFields sorted
    cases typeId with
    | none => exact normal_object keys written
    | some typeId =>
      refine normal_object (Dictionary.sorted_insert keys) fun entry member => ?_
      rcases Dictionary.mem_insert member with rfl | old
      · exact ⟨rfl, rfl⟩
      · exact written entry old
  | handle h =>
    have keys : handleName < typeName := by decide
    refine normal_object (List.pairwise_pair.mpr keys) fun entry member => ?_
    simp only [List.mem_cons, List.not_mem_nil, or_false] at member
    rcases member with rfl | rfl <;> exact ⟨rfl, rfl⟩
  | _ => exact ⟨rfl, rfl⟩

theorem normal_toLiterals {items : List Value} (ordered : OrderedItems items) :
    Json.readableItems (toLiterals items) = true ∧
      Json.normalizeItems (toLiterals items) = toLiterals items := by
  cases items with
  | nil => exact ⟨rfl, rfl⟩
  | cons item rest =>
    obtain ⟨readable, normal⟩ := normal_toLiteral ordered.1
    obtain ⟨readables, normals⟩ := normal_toLiterals ordered.2
    simp only [toLiterals, Json.readableItems, Json.normalizeItems, readable, readables, normal,
      normals, Bool.and_self, and_self]

theorem normal_toLiteralFields {fields : List (String × Value)} (ordered : OrderedFields fields) :
    ∀ entry ∈ toLiteralFields fields,
      entry.2.readable = true ∧ entry.2.normalize = entry.2 := by
  match fields with
  | [] => exact fun entry member => absurd member List.not_mem_nil
  | (name, value) :: rest =>
    exact List.forall_mem_cons.mpr
      ⟨normal_toLiteral ordered.1, normal_toLiteralFields ordered.2⟩

end

mutual

/-- A value that is read from a tagged form has dictionaries for fields, and less depth. -/
theorem nested_ofTagged? {j : Json} {v : Value} (read : ofTagged? j = some v) :
    v.Ordered ∧ v.depth < j.depth := by
  match j with
  | .object entries =>
    unfold ofTagged? at read
    split at read
    · obtain ⟨ordered, below⟩ := nested_ofTaggedEntries? read
      exact ⟨ordered, Nat.lt_succ_of_le below⟩
    · cases read
  | .array [kind, content] =>
    unfold ofTagged? at read
    split at read
    · obtain ⟨ordered, below⟩ := nested_ofContent? read
      refine ⟨ordered, ?_⟩
      simp only [Json.depth, Json.depthItems]
      omega
    · cases read
  | .array [] | .array [_] | .array (_ :: _ :: _ :: _) => cases read
  | .null | .bool _ | .int _ | .float _ | .string _ | .unreadable => cases read

theorem nested_ofTaggedEntries? {kind : Kind} {entries : List (String × Json)} {v : Value}
    (read : ofTaggedEntries? kind entries = some v) :
    v.Ordered ∧ v.depth ≤ Json.depthEntries entries := by
  match entries with
  | [] =>
    unfold ofTaggedEntries? at read
    split at read <;> cases read
    exact ⟨trivial, Nat.zero_le _⟩
  | (name, j) :: rest =>
    unfold ofTaggedEntries? at read
    simp only [Json.depthEntries]
    split at read
    · obtain ⟨ordered, below⟩ := nested_ofContent? read
      exact ⟨ordered, by omega⟩
    · obtain ⟨ordered, below⟩ := nested_ofTaggedEntries? read
      exact ⟨ordered, by omega⟩

/-- What is read from a content is not deeper than the content. -/
theorem nested_ofContent? {kind : Kind} {j : Json} {v : Value}
    (read : ofContent? kind j = some v) : v.Ordered ∧ v.depth ≤ j.depth := by
  match j with
  | .array items =>
    unfold ofContent? at read
    split at read
    · obtain ⟨values, all, rfl⟩ := Option.map_eq_some_iff.mp read
      obtain ⟨ordered, below⟩ := nested_ofTaggedItems? all
      exact ⟨ordered, Nat.succ_le_succ below⟩
    · obtain ⟨h, _, rfl⟩ := Option.map_eq_some_iff.mp read
      exact ⟨trivial, Nat.succ_le_succ (Nat.zero_le _)⟩
    · cases read
  | .object entries =>
    unfold ofContent? at read
    split at read
    · split at read
      · rename_i fields _ _ found
        cases read
        obtain ⟨ordered, below⟩ := nested_ofFieldsEntry? found
        refine ⟨⟨Dictionary.sorted_ofList _, orderedFields_iff.mpr fun entry member => ?_⟩, ?_⟩
        · exact orderedFields_iff.mp ordered entry (Dictionary.mem_of_mem_ofList member)
        · refine Nat.succ_le_succ (depthFields_le_iff.mpr fun entry member => ?_)
          have inside := depthFields_le_iff.mp (Nat.le_refl _) entry
            (Dictionary.mem_of_mem_ofList member)
          omega
      · cases read
    · obtain ⟨h, _, rfl⟩ := Option.map_eq_some_iff.mp read
      exact ⟨trivial, Nat.succ_le_succ (Nat.zero_le _)⟩
    · cases read
  | .int i =>
    unfold ofContent? at read
    split at read
    · obtain ⟨n, _, rfl⟩ := Option.map_eq_some_iff.mp read
      exact ⟨trivial, Nat.le_refl 0⟩
    · cases read
      exact ⟨trivial, Nat.le_refl 0⟩
    · cases read
  | .null | .bool _ | .float _ | .string _ =>
    unfold ofContent? at read
    split at read <;> cases read
    exact ⟨trivial, Nat.le_refl 0⟩
  | .unreadable => cases read

theorem nested_ofTaggedItems? {items : List Json} {values : List Value}
    (read : ofTaggedItems? items = some values) :
    OrderedItems values ∧ depthItems values ≤ Json.depthItems items := by
  match items with
  | [] =>
    cases read
    exact ⟨trivial, Nat.le_refl 0⟩
  | item :: rest =>
    unfold ofTaggedItems? at read
    split at read
    · rename_i first others
      cases read
      obtain ⟨ordered, below⟩ := nested_ofTagged? first
      obtain ⟨ordereds, belows⟩ := nested_ofTaggedItems? others
      refine ⟨⟨ordered, ordereds⟩, ?_⟩
      simp only [depthItems, Json.depthItems]
      omega
    · cases read

/-- The fields of an object stand one level below its content, so they are less deep. -/
theorem nested_ofFieldsEntry? {entries : List (String × Json)} {fields : List (String × Value)}
    (read : ofFieldsEntry? entries = some fields) :
    OrderedFields fields ∧ depthFields fields < Json.depthEntries entries := by
  match entries with
  | [] => cases read
  | (name, j) :: rest =>
    unfold ofFieldsEntry? at read
    simp only [Json.depthEntries]
    split at read
    · obtain ⟨ordered, below⟩ := nested_ofFieldsObject? read
      exact ⟨ordered, by omega⟩
    · obtain ⟨ordered, below⟩ := nested_ofFieldsEntry? read
      exact ⟨ordered, by omega⟩

theorem nested_ofFieldsObject? {j : Json} {fields : List (String × Value)}
    (read : ofFieldsObject? j = some fields) :
    OrderedFields fields ∧ depthFields fields < j.depth := by
  match j with
  | .object entries =>
    obtain ⟨ordered, below⟩ := nested_ofTaggedFields? read
    exact ⟨ordered, Nat.lt_succ_of_le below⟩
  | .null | .bool _ | .int _ | .float _ | .string _ | .array _ | .unreadable => cases read

theorem nested_ofTaggedFields? {entries : List (String × Json)} {fields : List (String × Value)}
    (read : ofTaggedFields? entries = some fields) :
    OrderedFields fields ∧ depthFields fields ≤ Json.depthEntries entries := by
  match entries with
  | [] =>
    cases read
    exact ⟨trivial, Nat.le_refl 0⟩
  | (name, j) :: rest =>
    unfold ofTaggedFields? at read
    split at read
    · rename_i first others
      cases read
      obtain ⟨ordered, below⟩ := nested_ofTagged? first
      obtain ⟨ordereds, belows⟩ := nested_ofTaggedFields? others
      refine ⟨⟨ordered, ordereds⟩, ?_⟩
      simp only [depthFields, Json.depthEntries]
      omega
    · cases read

end

end Value

end Flowgraph
