import Flowgraph.Number.Binary64

namespace Flowgraph

open Float.Model (Format UnpackedFloat)
open Float.Model.UnpackedFloat (unpackExponent)

namespace Binary64

/-- A double is finite unless its exponent field is full. -/
theorem isFinite_unpack (bits : BitVec Format.binary64.numBits) :
    (UnpackedFloat.unpack Format.binary64 bits).isFinite = true ↔ unpackExponent bits ≠ -1#11 := by
  unfold UnpackedFloat.unpack
  by_cases full : unpackExponent bits = -1#11
  · rw [if_pos full]
    apply iff_of_false _ fun notFull => notFull full
    split <;> exact Bool.false_ne_true
  · rw [if_neg full]
    refine iff_of_true ?_ full
    by_cases none : unpackExponent bits = 0#11
    · rw [if_pos none]
      by_cases zero : UnpackedFloat.unpackMantissa bits = 0#52
      · rw [dif_pos zero]
        rfl
      · rw [dif_neg zero]
        rfl
    · rw [if_neg none]
      rfl

/-- A number with a small exponent is packed with an exponent field that is not full. -/
theorem exponent_pack {s : UnpackedFloat.Sign} {m : Nat} {e : Int} {positive : 0 < m}
    (small : e + 1075 < 2047) :
    unpackExponent (UnpackedFloat.pack Format.binary64 (.finite s m e positive)) ≠ -1#11 := by
  have field : (e + Format.binary64.exponentBias +
      Format.binary64.mantissaBitsWithoutImplicit).toNat < 2047 := by
    have bias : (Format.binary64.exponentBias : Int) = 1023 := rfl
    have width : (Format.binary64.mantissaBitsWithoutImplicit : Int) = 52 := rfl
    omega
  have size : 2 ^ Format.binary64.exponentBits = 2048 := rfl
  unfold UnpackedFloat.pack
  simp only [size]
  generalize (e + _ + _).toNat = biased at field ⊢
  split
  · omega
  · split
    · rw [UnpackedFloat.unpackExponent_packComponents]
      intro full
      have value : biased % 2048 = 2047 := congrArg BitVec.toNat full
      omega
    · rw [UnpackedFloat.unpackExponent_packComponents]
      decide

theorem isFinite_ofBitVec {bits : BitVec Format.binary64.numBits}
    (notFull : unpackExponent bits ≠ -1#11) :
    (UnpackedFloat.unpack Format.binary64
      (UnpackedFloat.pack Format.binary64
        (UnpackedFloat.unpack Format.binary64 bits))).isFinite = true := by
  have below : (unpackExponent bits).toNat < 2047 := by
    have bound : (unpackExponent bits).toNat < 2048 := (unpackExponent bits).isLt
    have apart : (unpackExponent bits).toNat ≠ 2047 := fun same =>
      notFull (BitVec.eq_of_toNat_eq same)
    omega
  have bias : (Format.binary64.exponentBias : Int) = 1023 := rfl
  have width : (Format.binary64.mantissaBitsWithoutImplicit : Int) = 52 := rfl
  rw [isFinite_unpack]
  generalize same : UnpackedFloat.unpack Format.binary64 bits = unpacked
  unfold UnpackedFloat.unpack at same
  rw [if_neg notFull] at same
  by_cases none : unpackExponent bits = 0#11
  · have exponent : (unpackExponent bits).toNat = 0 := congrArg BitVec.toNat none
    rw [if_pos none] at same
    by_cases zero : UnpackedFloat.unpackMantissa bits = 0#52
    · rw [dif_pos zero] at same
      subst same
      unfold UnpackedFloat.pack
      simp only [UnpackedFloat.packedZero, UnpackedFloat.unpackExponent_packComponents]
      decide
    · rw [dif_neg zero] at same
      subst same
      apply exponent_pack
      omega
  · rw [if_neg none] at same
    subst same
    apply exponent_pack
    omega

theorem toNat_unpackExponent (bits : BitVec Format.binary64.numBits) :
    (unpackExponent bits).toNat = bits.toNat >>> 52 % 2048 := by
  simp only [unpackExponent, BitVec.toNat_cast, BitVec.extractLsb_toNat]

/-- Bits below those of infinity are of a finite number. -/
theorem isFinite_ofBits {bits : Nat} (below : bits < infinityBits) :
    (Float.ofBits (.ofNat bits)).isFinite = true := by
  have small : bits < 2047 <<< 52 := below
  apply isFinite_ofBitVec
  intro full
  have value := congrArg BitVec.toNat full
  have kept : (UInt64.ofNat bits).toBitVec.toNat = bits :=
    Nat.mod_eq_of_lt (Nat.lt_trans small (by decide))
  have top : (-1#11).toNat = 2047 := rfl
  rw [toNat_unpackExponent, kept, top] at value
  omega

theorem halfEven_le (m divisor : Nat) : halfEven m divisor ≤ m / divisor + 1 := by
  have parity := Nat.mod_lt (m / divisor) (by decide : 0 < 2)
  unfold halfEven
  simp only
  split
  · omega
  · split <;> omega

/-- The 53 leading bits of an integer are rounded to `2 ^ 53` at most, and below `2 ^ 64` the
exponent that goes with them is small. -/
theorem roundBits_lt {m : Nat} (small : m < UInt64.size) : roundBits m 0 < infinityBits := by
  unfold roundBits
  split
  · decide
  rename_i positive
  have top : m.log2 < 64 := (Nat.log2_lt positive).mpr small
  have leading : m < 1 <<< (m.log2 + 1) := by
    rw [Nat.one_shiftLeft]
    exact Nat.lt_log2_self
  have unit : max ((m.log2 : Int) + 0 - 52) (-1074) = m.log2 - 52 := by omega
  simp only [unit]
  -- long integers lose their last bits and may carry, short ones are shifted up
  have scaled : (if (0 : Int) < m.log2 - 52 then halfEven m (1 <<< ((m.log2 : Int) - 52 - 0).toNat)
      else m <<< (0 - ((m.log2 : Int) - 52)).toNat) ≤ 1 <<< 53 := by
    split
    · rename_i long
      have places : m.log2 + 1 = 53 + ((m.log2 : Int) - 52 - 0).toNat := by omega
      have bound : m / 1 <<< ((m.log2 : Int) - 52 - 0).toNat < 1 <<< 53 := by
        have unitPositive : 0 < 1 <<< ((m.log2 : Int) - 52 - 0).toNat := by
          rw [Nat.one_shiftLeft]
          exact Nat.two_pow_pos _
        rw [Nat.div_lt_iff_lt_mul unitPositive]
        rw [places, Nat.one_shiftLeft, Nat.pow_add] at leading
        simpa only [Nat.one_shiftLeft] using leading
      have rounded := halfEven_le m (1 <<< ((m.log2 : Int) - 52 - 0).toNat)
      omega
    · have places : m.log2 + 1 + (0 - ((m.log2 : Int) - 52)).toNat = 53 := by omega
      rw [Nat.shiftLeft_eq, ← places, Nat.one_shiftLeft, Nat.pow_add]
      rw [Nat.one_shiftLeft] at leading
      exact Nat.mul_le_mul_right _ (Nat.le_of_lt leading)
  have field : ((m.log2 : Int) - 52 + 1074).toNat ≤ 1085 := by omega
  generalize (if (0 : Int) < m.log2 - 52 then _ else _) = significand at scaled ⊢
  generalize ((m.log2 : Int) - 52 + 1074).toNat = exponent at field ⊢
  have limit : infinityBits = 2047 <<< 52 := rfl
  rw [if_neg (by omega)]
  omega

end Binary64

/-- The double nearest to a natural number of 64 bits is finite. -/
theorem Number.isFinite_ofInt {n : Nat} (small : n < UInt64.size) :
    (Number.ofInt n).isFinite = true := by
  have positive : ¬ (n : Int) < 0 := by omega
  have rounded := Binary64.isFinite_ofBits (Binary64.roundBits_lt small)
  rw [← Nat.zero_add (Binary64.roundBits n 0)] at rounded
  simpa only [Number.ofInt, Binary64.round, positive, decide_false, Bool.false_eq_true, if_false,
    Int.natAbs_natCast] using rounded

end Flowgraph
