import Mathlib.Data.UInt

/-! Rounding of 64-bit words with masks. -/
namespace IrisOS.Lib

theorem toNat_and_not_low (x : UInt64) (k : ℕ) :
    (x &&& ~~~(UInt64.ofNat (2 ^ k - 1))).toNat = x.toNat / 2 ^ k * 2 ^ k := by
  rw [UInt64.toNat_and, ← Nat.shiftRight_eq_div_pow, ← Nat.shiftLeft_eq]
  apply Nat.eq_of_testBit_eq
  intro i
  rw [Nat.testBit_and, Nat.testBit_shiftLeft, Nat.testBit_shiftRight]
  by_cases hi : i < 64
  · have hmask : (~~~UInt64.ofNat (2 ^ k - 1)).toNat.testBit i = decide (k ≤ i) := by
      rw [← UInt64.toNat_toBitVec, BitVec.testBit_toNat, UInt64.toBitVec_not, BitVec.getLsbD_not,
        UInt64.toBitVec_ofNat', BitVec.getLsbD_ofNat, Nat.testBit_two_pow_sub_one]
      simp only [hi, decide_true, Bool.true_and, ← decide_not, Nat.not_lt]
    rw [hmask]
    by_cases hki : k ≤ i
    · simp [hki, Nat.add_sub_cancel' hki]
    · simp [hki]
  · have hx : x.toNat.testBit i = false :=
      Nat.testBit_lt_two_pow (x.toNat_lt.trans_le (Nat.pow_le_pow_right (by omega) (by omega)))
    by_cases hki : k ≤ i
    · simp [hx, Nat.add_sub_cancel' hki]
    · simp [hx, hki]

end IrisOS.Lib
