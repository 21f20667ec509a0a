import Flowgraph.Hexadecimal

namespace Flowgraph

/-- A 128-bit identifier. -/
structure Uuid where
  bits : BitVec 128
deriving DecidableEq, Repr

namespace Uuid

/-- The sizes of the groups. -/
def groups : List Nat := [8, 4, 4, 4, 12]

/-- Puts a hyphen after each group but the last, which is all that is left. -/
def hyphenate : (sizes : List Nat) → List Char → List Char
  | size :: next :: sizes, cs => cs.take size ++ '-' :: hyphenate (next :: sizes) (cs.drop size)
  | _, cs => cs

/-- Takes out the hyphens after all groups but the last. -/
def unhyphenate? : (sizes : List Nat) → List Char → Option (List Char)
  | size :: next :: sizes, cs =>
    match cs.drop size with
    | '-' :: rest => (unhyphenate? (next :: sizes) rest).map (cs.take size ++ ·)
    | _ => none
  | _, cs => some cs

/-- The grouped spelling. -/
def toText (id : Uuid) : String :=
  String.ofList (hyphenate groups (Hexadecimal.digits 32 id.bits.toNat))

/-- Reads 32 hexadecimal digits. -/
def ofDigits? (cs : List Char) : Option Uuid :=
  if cs.length = 32 then (Hexadecimal.number? cs).map fun n => ⟨BitVec.ofNat 128 n⟩ else none

/-- Reads the grouped spelling. -/
def ofGrouped? (cs : List Char) : Option Uuid :=
  (unhyphenate? groups cs).bind ofDigits?

/-- Reads any of the four spellings, which differ in length: grouped, ungrouped, grouped in braces,
and grouped after `urn:uuid:`. The case of letters never matters. -/
def ofText? (text : String) : Option Uuid :=
  let cs := text.toList
  if cs.length = 36 then ofGrouped? cs
  else if cs.length = 32 then ofDigits? cs
  else if cs.length = 38 ∧ cs.head? = some '\x7b' ∧ cs.getLast? = some '\x7d' then
    ofGrouped? (cs.drop 1).dropLast
  else if cs.length = 45 ∧ (cs.take 9).map Char.toLower = "urn:uuid:".toList then
    ofGrouped? (cs.drop 9)
  else none

/-- Grouping loses nothing, if there are enough digits for the groups. -/
theorem unhyphenate?_hyphenate {sizes : List Nat} {cs : List Char}
    (enough : sizes.foldr (· + ·) 0 ≤ cs.length) :
    unhyphenate? sizes (hyphenate sizes cs) = some cs := by
  induction sizes generalizing cs with
  | nil => rfl
  | cons size rest ih =>
    cases rest with
    | nil => rfl
    | cons next sizes =>
      simp only [List.foldr_cons] at enough
      have taken : (cs.take size).length = size := by
        rw [List.length_take]
        omega
      have left : (next :: sizes).foldr (· + ·) 0 ≤ (cs.drop size).length := by
        rw [List.length_drop, List.foldr_cons]
        omega
      simp only [hyphenate, unhyphenate?]
      rw [List.drop_append_of_le_length (by omega), List.drop_eq_nil_of_le (by omega),
        List.nil_append, List.take_append_of_le_length (by omega),
        List.take_of_length_le (by omega)]
      simp [ih left]

/-- Thirty-two digits and four hyphens. -/
theorem length_hyphenate_groups {cs : List Char} (length : cs.length = 32) :
    (hyphenate groups cs).length = 36 := by
  simp [hyphenate, groups, length]

/-- What is written reads back. -/
theorem ofText?_toText (id : Uuid) : ofText? id.toText = some id := by
  have size : id.bits.toNat < 1 <<< (4 * 32) := by
    have := id.bits.isLt
    rwa [Nat.one_shiftLeft]
  have length := Hexadecimal.length_digits 32 id.bits.toNat
  have grouped : unhyphenate? groups (hyphenate groups (Hexadecimal.digits 32 id.bits.toNat)) =
      some (Hexadecimal.digits 32 id.bits.toNat) :=
    unhyphenate?_hyphenate (by simp [groups, length])
  simp [ofText?, toText, length_hyphenate_groups length, ofGrouped?, grouped, ofDigits?, length,
    Hexadecimal.number?_digits size]

end Uuid

end Flowgraph
