import Mathlib.Data.List.Lex
import Mathlib.Data.String.Basic

namespace Flowgraph.Utf8

/-- The bytes of a text. -/
def bytes (s : String) : List UInt8 := s.toUTF8.data.toList

/-- The lowest digits of a number, each in a byte of its own. -/
def tail : (count : Nat) → Nat → List UInt8
  | 0, _ => []
  | count + 1, n => .ofNat (n / 64 ^ count % 64 + 128) :: tail count n

/-- What is added to the highest digits, by how many bytes follow. -/
def mark : Nat → Nat
  | 0 => 0
  | 1 => 192
  | 2 => 224
  | _ => 240

/-- How many bytes follow the first one of a character. -/
inductive Follow (n : Nat) : Nat → Prop
  | none : n < 128 → Follow n 0
  | one : 128 ≤ n → n < 2048 → Follow n 1
  | two : 2048 ≤ n → n < 65536 → Follow n 2
  | three : 65536 ≤ n → n < 1114112 → Follow n 3

theorem bytes_eq (s : String) : bytes s = s.toList.flatMap String.utf8EncodeChar := by
  unfold bytes
  conv_lhs => rw [← String.ofList_toList (s := s)]
  rw [String.toUTF8_eq_toByteArray, String.toByteArray_ofList, List.utf8Encode,
    List.data_toByteArray, List.toList_toArray]

/-- UTF-8 writes a character as its number to the base 64: the highest digits in the first byte,
above a mark that tells how many follow, and one digit in each of these. -/
theorem encodeChar_eq (c : Char) : ∃ count, Follow c.toNat count ∧
    String.utf8EncodeChar c = .ofNat (c.toNat / 64 ^ count + mark count) :: tail count c.toNat := by
  have bound : c.toNat < 1114112 := by
    rcases c.valid with low | ⟨_, high⟩
    · exact Nat.lt_trans low (by decide)
    · exact high
  have value : c.val.toNat = c.toNat := rfl
  unfold String.utf8EncodeChar
  simp only [value]
  generalize c.toNat = n at bound
  split
  · exact ⟨0, .none (by omega), by simp [mark, tail]⟩
  split
  · have lead : n / 64 % 32 = n / 64 := by omega
    exact ⟨1, .one (by omega) (by omega), by simp [mark, tail, lead]⟩
  split
  · have lead : n / 4096 % 16 = n / 4096 := by omega
    exact ⟨2, .two (by omega) (by omega), by simp [mark, tail, lead]⟩
  · have lead : n / 262144 % 8 = n / 262144 := by omega
    exact ⟨3, .three (by omega) bound, by simp [mark, tail, lead]⟩

theorem ofNat_lt {m n : Nat} (below : m < n) (small : n < 256) :
    UInt8.ofNat m < UInt8.ofNat n := by
  rw [UInt8.lt_iff_toNat_lt, UInt8.toNat_ofNat', UInt8.toNat_ofNat']
  omega

/-- Of two numbers with the same digits further up, the smaller has the smaller bytes, whatever
comes after them. -/
theorem tail_append_lt {m n count : Nat} (below : m < n) (same : m / 64 ^ count = n / 64 ^ count)
    (x y : List UInt8) : tail count m ++ x < tail count n ++ y := by
  induction count with
  | zero =>
    rw [Nat.pow_zero, Nat.div_one, Nat.div_one] at same
    omega
  | succ count ih =>
    have ordered : m / 64 ^ count ≤ n / 64 ^ count := Nat.div_le_div_right (Nat.le_of_lt below)
    have further (k : Nat) : k / 64 ^ (count + 1) = k / 64 ^ count / 64 := by
      rw [Nat.pow_succ, Nat.div_div_eq_div_mul]
    rw [further, further] at same
    simp only [tail, List.cons_append, List.cons_lt_cons_iff]
    rcases Nat.lt_or_eq_of_le ordered with less | equal
    · exact Or.inl (ofNat_lt (by omega) (by omega))
    · exact Or.inr ⟨by rw [equal], ih equal⟩

theorem Follow.lead_lt {n count : Nat} (follow : Follow n count) :
    n / 64 ^ count + mark count < 256 := by
  cases follow <;> simp only [mark] <;> omega

/-- With more bytes to follow comes a higher first byte. -/
theorem Follow.eq_or_lead_lt {m n i j : Nat} (below : m < n) (followM : Follow m i)
    (followN : Follow n j) : i = j ∨ m / 64 ^ i + mark i < n / 64 ^ j + mark j := by
  cases followM <;> cases followN <;> simp only [mark, true_or] <;> omega

/-- A lower character is decided by its own bytes, whatever comes after it. -/
theorem encodeChar_append_lt {c d : Char} (below : c < d) (x y : List UInt8) :
    String.utf8EncodeChar c ++ x < String.utf8EncodeChar d ++ y := by
  have below : c.toNat < d.toNat := below
  obtain ⟨i, followC, atC⟩ := encodeChar_eq c
  obtain ⟨j, followD, atD⟩ := encodeChar_eq d
  rw [atC, atD, List.cons_append, List.cons_append, List.cons_lt_cons_iff]
  rcases Follow.eq_or_lead_lt below followC followD with rfl | less
  · have ordered : c.toNat / 64 ^ i ≤ d.toNat / 64 ^ i := Nat.div_le_div_right (Nat.le_of_lt below)
    rcases Nat.lt_or_eq_of_le ordered with less | same
    · exact Or.inl (ofNat_lt (by omega) followD.lead_lt)
    · exact Or.inr ⟨by rw [same], tail_append_lt below same x y⟩
  · exact Or.inl (ofNat_lt less followD.lead_lt)

theorem encode_lt {l m : List Char} (below : l < m) :
    l.flatMap String.utf8EncodeChar < m.flatMap String.utf8EncodeChar := by
  induction l generalizing m with
  | nil =>
    cases m with
    | nil => exact absurd below (List.lt_irrefl _)
    | cons d rest =>
      obtain ⟨_, _, atD⟩ := encodeChar_eq d
      rw [List.flatMap_cons, atD]
      exact List.nil_lt_cons _ _
  | cons c rest ih =>
    cases m with
    | nil => exact absurd below (List.not_lt_nil _)
    | cons d others =>
      rw [List.flatMap_cons, List.flatMap_cons]
      rcases List.cons_lt_cons_iff.mp below with less | ⟨rfl, later⟩
      · exact encodeChar_append_lt less _ _
      · exact List.append_left_lt (ih later)

/-- A text that is before another by code points is so by its bytes. -/
theorem bytes_lt {a b : String} (below : a < b) : bytes a < bytes b := by
  rw [bytes_eq, bytes_eq]
  exact encode_lt (String.lt_iff_toList_lt.mp below)

end Flowgraph.Utf8
