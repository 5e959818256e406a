import Mathlib.Data.Nat.Bitwise

/-! # Masks of the high bits

    `n & ~(2^k - 1)` on words of `w` bits rounds down to a multiple of `2^k`, and
    compares the bits above `k` when it is held against another word. -/

namespace Mask

/-- The mask of the bits from `k` up to `w`. -/
theorem testBit_mask {k w i : Nat} (hkw : k ≤ w) :
    (2 ^ w - 2 ^ k).testBit i = (decide (i < w) && !decide (i < k)) := by
  have hpos : 0 < 2 ^ k := Nat.two_pow_pos k
  have hle : 2 ^ k ≤ 2 ^ w := Nat.pow_le_pow_right (by omega) hkw
  have hsub : 2 ^ w - 2 ^ k = 2 ^ w - ((2 ^ k - 1) + 1) := by omega
  rw [hsub, Nat.testBit_two_pow_sub_succ (by omega), Nat.testBit_two_pow_sub_one]

/-- **Masking rounds down.** -/
theorem and_mask {n k w : Nat} (hkw : k ≤ w) (hn : n < 2 ^ w) :
    n &&& (2 ^ w - 2 ^ k) = n / 2 ^ k * 2 ^ k := by
  refine Nat.eq_of_testBit_eq fun i => ?_
  rw [Nat.testBit_and, testBit_mask hkw, Nat.testBit_mul_two_pow, Nat.testBit_div_two_pow]
  by_cases hik : i < k
  · simp [hik, Nat.not_le.mpr hik]
  · have hki : k ≤ i := Nat.le_of_not_lt hik
    rw [Nat.sub_add_cancel hki]
    by_cases hiw : i < w
    · simp [hik, hki, hiw]
    · -- the word has no bit up there
      have hhigh : n.testBit i = false :=
        Nat.testBit_lt_two_pow (Nat.lt_of_lt_of_le hn
          (Nat.pow_le_pow_right (by omega) (Nat.le_of_not_lt hiw)))
      simp [hhigh]

end Mask
