import Flowgraph.Proofs.Dictionary
import Flowgraph.Proofs.Number.Finite
import Flowgraph.Value.Literal

namespace Flowgraph

namespace Json

mutual

/-- The numbers are such as a text can hold: finite doubles, and whole numbers from `-2 ^ 63` to
`2 ^ 64 - 1`. -/
def InRange : Json → Prop
  | .int i => Int64.minValue.toInt ≤ i ∧ i < UInt64.size
  | .float x => x.isFinite = true
  | .array items => InRangeItems items
  | .object entries => InRangeEntries entries
  | _ => True

def InRangeItems : List Json → Prop
  | [] => True
  | item :: rest => item.InRange ∧ InRangeItems rest

def InRangeEntries : List (String × Json) → Prop
  | [] => True
  | (_, value) :: rest => value.InRange ∧ InRangeEntries rest

end

theorem inRangeEntries_iff {entries : List (String × Json)} :
    InRangeEntries entries ↔ ∀ entry ∈ entries, entry.2.InRange := by
  induction entries with
  | nil => simp [InRangeEntries]
  | cons entry rest ih => simp [InRangeEntries, ih]

end Json

namespace Value

mutual

/-- Whether a value can be told from its literal. -/
def LiteralSafe : Value → Prop
  | .float x => x.isFinite = true
  | .array items => LiteralSafeItems items
  | .object typeId fields =>
    (∀ entry ∈ fields, entry.1 ≠ typeName) ∧
      (typeId ≠ none → ∀ text, (handleName, .string text) ∈ fields → Uuid.ofText? text = none) ∧
      LiteralSafeFields fields
  | _ => True

def LiteralSafeItems : List Value → Prop
  | [] => True
  | item :: rest => item.LiteralSafe ∧ LiteralSafeItems rest

def LiteralSafeFields : List (String × Value) → Prop
  | [] => True
  | (_, value) :: rest => value.LiteralSafe ∧ LiteralSafeFields rest

end

theorem literalSafeFields_iff {fields : List (String × Value)} :
    LiteralSafeFields fields ↔ ∀ entry ∈ fields, entry.2.LiteralSafe := by
  induction fields with
  | nil => simp [LiteralSafeFields]
  | cons entry rest ih => simp [LiteralSafeFields, ih]

theorem orderedFields_iff {fields : List (String × Value)} :
    OrderedFields fields ↔ ∀ entry ∈ fields, entry.2.Ordered := by
  induction fields with
  | nil => simp [OrderedFields]
  | cons entry rest ih => simp [OrderedFields, ih]

theorem toLiteralFields_eq (fields : List (String × Value)) :
    toLiteralFields fields = fields.map fun entry => (entry.1, entry.2.toLiteral) := by
  induction fields with
  | nil => rfl
  | cons entry rest ih => rw [toLiteralFields, ih, List.map_cons]

/-- The fields of a literal are its entries but the type name, each read by itself. -/
theorem mem_ofLiteralEntries {entries : List (String × Json)} {field : String × Value}
    (member : field ∈ ofLiteralEntries entries) :
    field.1 ≠ typeName ∧ ∃ j, (field.1, j) ∈ entries ∧ field.2 = ofLiteral j := by
  induction entries with
  | nil => cases member
  | cons entry rest ih =>
    obtain ⟨name, j⟩ := entry
    unfold ofLiteralEntries at member
    split at member
    · obtain ⟨apart, k, there, read⟩ := ih member
      exact ⟨apart, k, List.mem_cons_of_mem _ there, read⟩
    · rename_i apart
      rcases List.mem_cons.mp member with rfl | later
      · exact ⟨apart, j, List.mem_cons_self, rfl⟩
      · obtain ⟨apart, k, there, read⟩ := ih later
        exact ⟨apart, k, List.mem_cons_of_mem _ there, read⟩

theorem last?_ofLiteralEntries {key : String} (apart : key ≠ typeName)
    (entries : List (String × Json)) :
    Dictionary.last? (ofLiteralEntries entries) key =
      (Dictionary.last? entries key).map ofLiteral := by
  induction entries with
  | nil => rfl
  | cons entry rest ih =>
    obtain ⟨name, j⟩ := entry
    unfold ofLiteralEntries
    rw [Dictionary.last?_cons, Option.map_or, ← ih]
    split
    · rename_i reserved
      rw [if_neg (reserved ▸ apart), Option.map_none, Option.or_none]
    · rw [Dictionary.last?_cons]
      split <;> rfl

theorem eq_string_of_ofLiteral {j : Json} {text : String} (read : ofLiteral j = .string text) :
    j = .string text := by
  cases j with
  | string s => exact congrArg Json.string (Value.string.inj read)
  | int i =>
    unfold ofLiteral at read
    split at read <;> cases read
  | object entries =>
    unfold ofLiteral at read
    split at read <;> cases read
  | _ => cases read

/-- An object that is read takes no reserved name, and with a type name its `__handle__` is no
identifier, since then a handle would have been read. -/
theorem object_of_literal {entries : List (String × Json)}
    (noHandle : literalHandle? entries = none) :
    (∀ field ∈ Dictionary.ofList (ofLiteralEntries entries), field.1 ≠ typeName) ∧
      (lastString? entries typeName ≠ none → ∀ text,
        (handleName, Value.string text) ∈ Dictionary.ofList (ofLiteralEntries entries) →
          Uuid.ofText? text = none) := by
  refine ⟨fun field member => ?_, fun typed text member => ?_⟩
  · exact (mem_ofLiteralEntries (Dictionary.mem_of_mem_ofList member)).1
  · rw [Dictionary.mem_ofList, last?_ofLiteralEntries (by decide)] at member
    obtain ⟨j, last, read⟩ := Option.map_eq_some_iff.mp member
    rw [eq_string_of_ofLiteral read] at last
    obtain ⟨typeId, typed⟩ := Option.ne_none_iff_exists'.mp typed
    have held : lastString? entries handleName = some text := by
      unfold lastString?
      rw [last]
    cases parsed : Uuid.ofText? text with
    | none => rfl
    | some id =>
      have handle : literalHandle? entries = some ⟨id, typeId⟩ := by
        simp [literalHandle?, held, typed, parsed]
      cases noHandle.symm.trans handle

mutual

/-- What is read from a literal has its fields in order. -/
theorem ordered_ofLiteral (j : Json) : (ofLiteral j).Ordered := by
  cases j with
  | int i =>
    unfold ofLiteral
    split <;> trivial
  | array items => exact orderedItems_ofLiterals items
  | object entries =>
    unfold ofLiteral
    split
    · trivial
    · refine ⟨Dictionary.sorted_ofList _, orderedFields_iff.mpr fun field member => ?_⟩
      exact orderedFields_iff.mp (orderedFields_ofLiteralEntries entries) field
        (Dictionary.mem_of_mem_ofList member)
  | _ => trivial

theorem orderedItems_ofLiterals (items : List Json) : OrderedItems (ofLiterals items) := by
  cases items with
  | nil => trivial
  | cons item rest => exact ⟨ordered_ofLiteral item, orderedItems_ofLiterals rest⟩

theorem orderedFields_ofLiteralEntries (entries : List (String × Json)) :
    OrderedFields (ofLiteralEntries entries) := by
  match entries with
  | [] => trivial
  | (name, j) :: rest =>
    unfold ofLiteralEntries
    split
    · exact orderedFields_ofLiteralEntries rest
    · exact ⟨ordered_ofLiteral j, orderedFields_ofLiteralEntries rest⟩

end

mutual

/-- What is read from a literal is literal safe, since a reserved name never becomes a field where
it would be looked at again. -/
theorem literalSafe_ofLiteral {j : Json} (range : j.InRange) : (ofLiteral j).LiteralSafe := by
  cases j with
  | int i =>
    unfold ofLiteral
    split
    · trivial
    · rename_i large
      have top : Int64.maxValue.toInt = 9223372036854775807 := rfl
      have whole : ((i.toNat : Nat) : Int) = i := by omega
      have small : i.toNat < UInt64.size := by
        have := range.2
        omega
      have finite := Number.isFinite_ofInt small
      rwa [whole] at finite
  | float x => exact range
  | array items => exact literalSafeItems_ofLiterals range
  | object entries =>
    unfold ofLiteral
    split
    · trivial
    · rename_i noHandle
      obtain ⟨untyped, unhandled⟩ := object_of_literal noHandle
      refine ⟨untyped, unhandled, literalSafeFields_iff.mpr fun field member => ?_⟩
      exact literalSafeFields_iff.mp (literalSafeFields_ofLiteralEntries range) field
        (Dictionary.mem_of_mem_ofList member)
  | _ => trivial

theorem literalSafeItems_ofLiterals {items : List Json} (range : Json.InRangeItems items) :
    LiteralSafeItems (ofLiterals items) := by
  cases items with
  | nil => trivial
  | cons item rest => exact ⟨literalSafe_ofLiteral range.1, literalSafeItems_ofLiterals range.2⟩

theorem literalSafeFields_ofLiteralEntries {entries : List (String × Json)}
    (range : Json.InRangeEntries entries) : LiteralSafeFields (ofLiteralEntries entries) := by
  match entries with
  | [] => trivial
  | (name, j) :: rest =>
    unfold ofLiteralEntries
    split
    · exact literalSafeFields_ofLiteralEntries range.2
    · exact ⟨literalSafe_ofLiteral range.1, literalSafeFields_ofLiteralEntries range.2⟩

end

mutual

/-- A literal holds signed integers of 64 bits and finite doubles only. -/
theorem inRange_toLiteral (v : Value) : v.toLiteral.InRange := by
  cases v with
  | int i =>
    have below := i.toInt_lt
    exact ⟨Int64.minValue_le_toInt i, by simp only [UInt64.size]; omega⟩
  | float x =>
    unfold toLiteral
    split
    · assumption
    · trivial
  | array items => exact inRangeItems_toLiterals items
  | object typeId fields =>
    have entries := inRangeEntries_toLiteralFields fields
    cases typeId with
    | none => exact entries
    | some typeId =>
      refine Json.inRangeEntries_iff.mpr fun entry member => ?_
      rcases Dictionary.mem_insert member with rfl | old
      · trivial
      · exact Json.inRangeEntries_iff.mp entries entry old
  | handle h => exact ⟨trivial, trivial, trivial⟩
  | _ => trivial

theorem inRangeItems_toLiterals (items : List Value) : Json.InRangeItems (toLiterals items) := by
  cases items with
  | nil => trivial
  | cons item rest => exact ⟨inRange_toLiteral item, inRangeItems_toLiterals rest⟩

theorem inRangeEntries_toLiteralFields (fields : List (String × Value)) :
    Json.InRangeEntries (toLiteralFields fields) := by
  match fields with
  | [] => trivial
  | (name, value) :: rest => exact ⟨inRange_toLiteral value, inRangeEntries_toLiteralFields rest⟩

end

/-- The type name among the entries of a literal is no field. -/
theorem ofLiteralEntries_insert (typeId : Json) (entries : List (String × Json)) :
    ofLiteralEntries (Dictionary.insert typeName typeId entries) = ofLiteralEntries entries := by
  induction entries with
  | nil => rfl
  | cons entry rest ih =>
    obtain ⟨name, j⟩ := entry
    unfold Dictionary.insert
    split
    · rfl
    · split
      · rename_i reserved
        subst reserved
        rfl
      · rw [ofLiteralEntries, ofLiteralEntries, ih]

theorem sorted_toLiteralFields {fields : List (String × Value)}
    (sorted : Dictionary.Sorted fields) : Dictionary.Sorted (toLiteralFields fields) := by
  rw [toLiteralFields_eq]
  exact List.pairwise_map.mpr sorted

theorem mem_toLiteralFields {fields : List (String × Value)} {name : String} {j : Json}
    (member : (name, j) ∈ toLiteralFields fields) :
    ∃ value, (name, value) ∈ fields ∧ value.toLiteral = j := by
  rw [toLiteralFields_eq, List.mem_map] at member
  obtain ⟨⟨key, value⟩, there, same⟩ := member
  cases same
  exact ⟨value, there, rfl⟩

theorem eq_string_of_toLiteral {v : Value} {text : String} (written : v.toLiteral = .string text) :
    v = .string text := by
  cases v with
  | string s => exact congrArg Value.string (Json.string.inj written)
  | float x =>
    unfold toLiteral at written
    split at written <;> cases written
  | object typeId fields => cases typeId <;> cases written
  | _ => cases written

/-- The literal of an object without reserved names has no type name. -/
theorem lastString?_typeName {fields : List (String × Value)}
    (free : ∀ entry ∈ fields, entry.1 ≠ typeName) :
    lastString? (toLiteralFields fields) typeName = none := by
  unfold lastString?
  cases last : Dictionary.last? (toLiteralFields fields) typeName with
  | none => rfl
  | some j =>
    obtain ⟨value, member, _⟩ :=
      mem_toLiteralFields (Dictionary.mem_of_mem_ofList (Dictionary.mem_ofList.mpr last))
    exact absurd rfl (free _ member)

/-- The literal of an object with a type name holds that name, and is no handle unless a field
`__handle__` makes it one. -/
theorem literalHandle?_insert {fields : List (String × Value)} (typeId : String)
    (sorted : Dictionary.Sorted fields)
    (unhandled : ∀ text, (handleName, .string text) ∈ fields → Uuid.ofText? text = none) :
    lastString? (Dictionary.insert typeName (.string typeId) (toLiteralFields fields)) typeName =
        some typeId ∧
      literalHandle? (Dictionary.insert typeName (.string typeId) (toLiteralFields fields)) =
        none := by
  have inserted : Dictionary.Sorted
      (Dictionary.insert typeName (.string typeId) (toLiteralFields fields)) :=
    Dictionary.sorted_insert (sorted_toLiteralFields sorted)
  have read := Dictionary.last?_of_sorted inserted
  refine ⟨?_, ?_⟩
  · unfold lastString?
    rw [read, Dictionary.get?_insert, if_pos rfl]
  · unfold literalHandle? lastString?
    rw [read handleName, Dictionary.get?_insert, if_neg (by decide)]
    cases found : Dictionary.get? (toLiteralFields fields) handleName with
    | none => rfl
    | some j =>
      obtain ⟨value, member, written⟩ := mem_toLiteralFields (Dictionary.mem_of_get? found)
      cases j with
      | string text =>
        rw [eq_string_of_toLiteral written] at member
        simp [unhandled text member]
      | _ => rfl

mutual

/-- A value that is literal safe reads back from its literal. -/
theorem ofLiteral_toLiteral {v : Value} (ordered : v.Ordered) (safe : v.LiteralSafe) :
    ofLiteral v.toLiteral = v := by
  cases v with
  | int i =>
    have below : i.toInt ≤ Int64.maxValue.toInt := Int64.toInt_le i
    rw [toLiteral, ofLiteral, if_pos below, Int64.ofInt_toInt]
  | float x =>
    have finite : x.isFinite = true := safe
    rw [toLiteral, if_pos finite]
    rfl
  | array items => exact congrArg Value.array (ofLiterals_toLiterals ordered safe)
  | object typeId fields =>
    obtain ⟨sorted, values⟩ := ordered
    obtain ⟨free, unhandled, safes⟩ := safe
    have fieldsBack : Dictionary.ofList (ofLiteralEntries (toLiteralFields fields)) = fields := by
      rw [ofLiteralEntries_toLiteralFields values safes free, Dictionary.ofList_of_sorted sorted]
    cases typeId with
    | none =>
      have untyped := lastString?_typeName free
      have noHandle : literalHandle? (toLiteralFields fields) = none := by
        unfold literalHandle?
        rw [untyped]
        cases lastString? (toLiteralFields fields) handleName with
        | none => rfl
        | some text =>
          simp only [Option.bind_eq_bind, Option.bind_some, Option.bind_none]
          cases Uuid.ofText? text <;> rfl
      rw [toLiteral, ofLiteral, noHandle]
      simp only [untyped, fieldsBack]
    | some typeId =>
      obtain ⟨typed, noHandle⟩ := literalHandle?_insert typeId sorted (unhandled (by simp))
      rw [toLiteral, ofLiteral, noHandle]
      simp only [typed, ofLiteralEntries_insert, fieldsBack]
  | handle h =>
    have text : lastString? [(handleName, Json.string h.id.toText), (typeName, .string h.typeId)]
        handleName = some h.id.toText := rfl
    have typed : lastString? [(handleName, Json.string h.id.toText), (typeName, .string h.typeId)]
        typeName = some h.typeId := rfl
    rw [toLiteral, ofLiteral]
    simp [literalHandle?, text, typed, Uuid.ofText?_toText]
  | _ => rfl

theorem ofLiterals_toLiterals {items : List Value} (ordered : OrderedItems items)
    (safe : LiteralSafeItems items) : ofLiterals (toLiterals items) = items := by
  cases items with
  | nil => rfl
  | cons item rest =>
    rw [toLiterals, ofLiterals, ofLiteral_toLiteral ordered.1 safe.1,
      ofLiterals_toLiterals ordered.2 safe.2]

theorem ofLiteralEntries_toLiteralFields {fields : List (String × Value)}
    (ordered : OrderedFields fields) (safe : LiteralSafeFields fields)
    (free : ∀ entry ∈ fields, entry.1 ≠ typeName) :
    ofLiteralEntries (toLiteralFields fields) = fields := by
  match fields with
  | [] => rfl
  | (name, value) :: rest =>
    rw [toLiteralFields, ofLiteralEntries, if_neg (free _ List.mem_cons_self),
      ofLiteral_toLiteral ordered.1 safe.1, ofLiteralEntries_toLiteralFields ordered.2 safe.2
        fun entry member => free entry (List.mem_cons_of_mem _ member)]

end

/-- A value reads back from its literal just if it is literal safe. -/
theorem ofLiteral_toLiteral_iff {v : Value} (ordered : v.Ordered) :
    ofLiteral v.toLiteral = v ↔ v.LiteralSafe := by
  refine ⟨fun back => ?_, ofLiteral_toLiteral ordered⟩
  rw [← back]
  exact literalSafe_ofLiteral v.inRange_toLiteral

/-- A value reads back from its literal if and only if it is literal safe, and what is read from a
literal is. So reading what was written for a value that was read gives this value again. -/
theorem literal_exact {v : Value} (ordered : v.Ordered) {j : Json} (range : j.InRange) :
    (ofLiteral v.toLiteral = v ↔ v.LiteralSafe) ∧ (ofLiteral j).LiteralSafe ∧
      ofLiteral (ofLiteral j).toLiteral = ofLiteral j := by
  have safe := literalSafe_ofLiteral range
  exact ⟨ofLiteral_toLiteral_iff ordered, safe, ofLiteral_toLiteral (ordered_ofLiteral j) safe⟩

/-- Reserved names in places where they are not looked at. -/
def decorated : Value :=
  .array [.object (some "Door") [("__handle__", .string "left"), ("width", .float 1.5)],
    .object none [("__handle__", .string "00000000-0000-4000-8000-000000000001")],
    .handle ⟨⟨7⟩, "entity"⟩]

/-- A type name that is no string, a repeated name, and an integer beyond the signed range. -/
def untidy : Json :=
  .object [("__type__", .int 5), ("n", .null), ("n", .array [.int 18446744073709551615])]

theorem literal_exact_decorated :
    decorated.Ordered ∧ untidy.InRange ∧ ofLiteral decorated.toLiteral = decorated ∧
      (ofLiteral untidy).LiteralSafe := by
  have ordered : decorated.Ordered := by
    refine ⟨⟨?_, trivial, trivial, trivial⟩, ⟨?_, trivial, trivial⟩, trivial, trivial⟩
    all_goals
      unfold Dictionary.Sorted
      decide
  have range : untidy.InRange := by
    refine ⟨?_, trivial, ⟨?_, trivial⟩, trivial⟩
    all_goals
      unfold Json.InRange
      decide
  have safe : decorated.LiteralSafe := by
    have finite : (Value.float 1.5).LiteralSafe := by
      unfold LiteralSafe
      decide
    refine ⟨⟨by decide, fun _ text member => ?_, trivial, finite, trivial⟩,
      ⟨by decide, fun typed => absurd rfl typed, trivial, trivial⟩, trivial, trivial⟩
    simp only [List.mem_cons, Prod.mk.injEq, Value.string.injEq, reduceCtorEq, and_false,
      List.not_mem_nil, or_false] at member
    rw [member.2]
    decide
  obtain ⟨exact, decoded, _⟩ := literal_exact ordered range
  exact ⟨ordered, range, exact.mpr safe, decoded⟩

end Value

end Flowgraph
