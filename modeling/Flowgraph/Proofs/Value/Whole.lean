import Mathlib.Algebra.Order.Field.Power
import Mathlib.Data.Nat.Cast.Field
import Mathlib.Data.Rat.Cast.CharZero
import Flowgraph.Value.Basic

namespace Flowgraph

namespace Binary64

/-- The rational number that a double denotes, if it denotes one. -/
def toRat? : Binary64 → Option ℚ
  | .nan | .infinite _ => none
  | .finite negative m q => some ((if negative then -1 else 1) * (m * (2 : ℚ) ^ q))

/-- A double with an exponent that is not negative denotes a whole number. -/
theorem cast_shiftLeft (m : ℕ) {q : ℤ} (nonneg : 0 ≤ q) :
    ((m <<< q.toNat : ℕ) : ℚ) = m * (2 : ℚ) ^ q := by
  obtain ⟨k, rfl⟩ := Int.eq_ofNat_of_zero_le nonneg
  rw [Int.toNat_natCast, Nat.shiftLeft_eq, zpow_natCast]
  push_cast
  rfl

/-- With a negative exponent the number is a quotient. -/
theorem mul_zpow_of_neg (m : ℕ) {q : ℤ} (negative : q < 0) :
    (m : ℚ) * (2 : ℚ) ^ q = m / (1 <<< (-q).toNat : ℕ) := by
  obtain ⟨k, same⟩ := Int.eq_ofNat_of_zero_le (Int.neg_nonneg_of_nonpos negative.le)
  obtain rfl : q = -k := by omega
  rw [neg_neg, Int.toNat_natCast, Nat.one_shiftLeft, zpow_neg, zpow_natCast, div_eq_mul_inv]
  push_cast
  rfl

theorem cast_shiftRight (m : ℕ) {q : ℤ} (negative : q < 0)
    (whole : m % (1 <<< (-q).toNat) = 0) : ((m >>> (-q).toNat : ℕ) : ℚ) = m * (2 : ℚ) ^ q := by
  rw [mul_zpow_of_neg m negative, Nat.shiftRight_eq_div_pow]
  rw [Nat.one_shiftLeft] at whole ⊢
  exact Nat.cast_div (Nat.dvd_of_mod_eq_zero whole) (Nat.cast_ne_zero.mpr (Nat.two_pow_pos _).ne')

theorem mul_zpow_ne_int (m : ℕ) {q : ℤ} (negative : q < 0)
    (broken : m % (1 <<< (-q).toNat) ≠ 0) (n : ℤ) : (m : ℚ) * (2 : ℚ) ^ q ≠ n := by
  rw [mul_zpow_of_neg m negative]
  intro same
  have positive : ((1 <<< (-q).toNat : ℕ) : ℚ) ≠ 0 := by
    rw [Nat.one_shiftLeft]
    exact Nat.cast_ne_zero.mpr (Nat.two_pow_pos _).ne'
  rw [div_eq_iff positive] at same
  have casts : ((m : ℤ) : ℚ) = (((1 <<< (-q).toNat : ℕ) * n : ℤ) : ℚ) := by
    rw [Int.cast_mul, Int.cast_natCast, Int.cast_natCast, same, mul_comm]
  have multiple : 1 <<< (-q).toNat ∣ m := Int.natCast_dvd_natCast.mp ⟨n, Int.cast_inj.mp casts⟩
  exact broken (Nat.mod_eq_zero_of_dvd multiple)

/-- A double is read as an integer exactly if it denotes that integer. -/
theorem toInt?_eq_some {x : Binary64} {n : ℤ} : x.toInt? = some n ↔ x.toRat? = some (n : ℚ) := by
  cases x with
  | nan | infinite => simp [toInt?, toRat?]
  | finite negative m q =>
    have signed (k : ℕ) : ((if negative then -(k : ℤ) else k : ℤ) : ℚ) =
        (if negative then -1 else 1) * (k : ℚ) := by
      cases negative <;> simp
    simp only [toInt?, toRat?]
    split
    · rename_i nonneg
      rw [Option.some.injEq, Option.some.injEq, ← cast_shiftLeft m nonneg, ← signed, Int.cast_inj]
    · rename_i below
      have below := not_le.mp below
      split
      · rename_i whole
        rw [Option.some.injEq, Option.some.injEq, ← cast_shiftRight m below whole, ← signed,
          Int.cast_inj]
      · rename_i broken
        simp only [reduceCtorEq, Option.some.injEq, false_iff]
        intro same
        refine mul_zpow_ne_int m below broken (if negative then -n else n) ?_
        cases negative
        · simpa using same
        · simpa [neg_eq_iff_eq_neg] using same

end Binary64

namespace Value

/-- The rational number that a value denotes, if it denotes one. -/
def number? : Value → Option ℚ
  | .int i => some i.toInt
  | .float x => (Binary64.ofFloat x).toRat?
  | _ => none

/-- A value that is, as a number, a given integer. -/
def Denotes (v : Value) (i : Int64) : Prop := v.number? = some (i.toInt : ℚ)

/-- A whole number that no integer of 64 bits is. -/
def Beyond (v : Value) : Prop :=
  ∃ n : ℤ, v.number? = some (n : ℚ) ∧ (n < Int64.minValue.toInt ∨ Int64.maxValue.toInt < n)

theorem number?_of_toInt? {x : Float} {n : ℤ} (whole : (Binary64.ofFloat x).toInt? = some n) :
    (Value.float x).number? = some (n : ℚ) :=
  Binary64.toInt?_eq_some.mp whole

theorem asInt?_eq_some {v : Value} {i : Int64} :
    v.asInt? = some i ↔ ∃ n : ℤ, v.number? = some (n : ℚ) ∧ Int64.ofIntClamp n = i := by
  cases v with
  | int j =>
    simp only [asInt?, number?, Option.some.injEq, Int.cast_inj, exists_eq_left',
      Int64.ofIntClamp_toInt]
  | float x =>
    simp only [asInt?, number?, Option.map_eq_some_iff, Binary64.toInt?_eq_some]
  | _ => simp [asInt?, number?]

/-- Within the range of integers nothing is changed. -/
theorem asInt?_iff_denotes {v : Value} (inside : ¬ v.Beyond) {i : Int64} :
    v.asInt? = some i ↔ v.Denotes i := by
  rw [asInt?_eq_some, Denotes]
  constructor
  · rintro ⟨n, number, rfl⟩
    have range : Int64.minValue.toInt ≤ n ∧ n ≤ Int64.maxValue.toInt := by
      refine ⟨not_lt.mp fun less => ?_, not_lt.mp fun more => ?_⟩
      · exact inside ⟨n, number, Or.inl less⟩
      · exact inside ⟨n, number, Or.inr more⟩
    rw [number, Int64.toInt_ofIntClamp range.1 range.2]
  · exact fun number => ⟨i.toInt, number, Int64.ofIntClamp_toInt i⟩

theorem Denotes.unique {v : Value} {i j : Int64} (left : v.Denotes i) (right : v.Denotes j) :
    i = j := by
  have same := Option.some.inj (left.symm.trans right)
  exact Int64.toInt_inj.mp (Int.cast_inj.mp same)

/-- A whole number beyond the range is read as an integer that it is not. -/
theorem Beyond.changed {v : Value} (beyond : v.Beyond) :
    ∃ i, v.asInt? = some i ∧ ¬ v.Denotes i := by
  obtain ⟨n, number, outside⟩ := beyond
  refine ⟨Int64.ofIntClamp n, asInt?_eq_some.mpr ⟨n, number, rfl⟩, fun denotes => ?_⟩
  have same := Int.cast_inj.mp (Option.some.inj (number.symm.trans denotes))
  have lower := (Int64.ofIntClamp n).minValue_le_toInt
  have upper := (Int64.ofIntClamp n).toInt_le
  omega

end Value

end Flowgraph
