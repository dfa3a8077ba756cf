import Mathlib.Data.Nat.Bitwise
import Mathlib.Tactic.NormNum

/-!
# Shifts and masks as arithmetic

Code that packs fields into a word does it with shifts and masks; what is proved about it is about
quotients and remainders.  The lemmas here go from the one to the other, for a field that starts at
bit `k` of a natural number.

* `shiftLeft_or`, `mul_or`: putting a small number into the low bits is an addition.
* `and_mask`: cutting off the low bits of a word of `w` bits leaves a multiple.
* `low_bits`: the low bits are a remainder.
-/

namespace EgosNet
namespace Foundation

/-- Writing into the low bits of a shifted number is an addition. -/
theorem shiftLeft_or {k b : ℕ} (a : ℕ) (hb : b < 2 ^ k) : a <<< k ||| b = a * 2 ^ k + b := by
  rw [← Nat.shiftLeft_add_eq_or_of_lt hb, Nat.shiftLeft_eq]

/-- The same for a multiple. -/
theorem mul_or {k b : ℕ} (a : ℕ) (hb : b < 2 ^ k) : a * 2 ^ k ||| b = a * 2 ^ k + b := by
  rw [← Nat.shiftLeft_eq, shiftLeft_or a hb, Nat.shiftLeft_eq]

/-- The low `k` bits. -/
theorem low_bits (n k : ℕ) : n &&& (2 ^ k - 1) = n % 2 ^ k := Nat.and_two_pow_sub_one_eq_mod n k

/-- Cutting off the low `k` bits of a word of `w` bits. -/
theorem and_mask {n k w : ℕ} (hn : n < 2 ^ w) (hk : k ≤ w) :
    n &&& (2 ^ w - 2 ^ k) = n / 2 ^ k * 2 ^ k := by
  have hmask : 2 ^ w - 2 ^ k = (2 ^ (w - k) - 1) <<< k := by
    rw [Nat.shiftLeft_eq, Nat.sub_mul, one_mul, ← Nat.pow_add, Nat.sub_add_cancel hk]
  rw [hmask, ← Nat.shiftLeft_eq]
  apply Nat.eq_of_testBit_eq
  intro i
  rw [Nat.testBit_and, Nat.testBit_shiftLeft, Nat.testBit_shiftLeft]
  by_cases hi : k ≤ i
  · have hdiv : n.testBit i = (n / 2 ^ k).testBit (i - k) := by
      rw [Nat.testBit_div_two_pow, Nat.sub_add_cancel hi]
    rw [Nat.testBit_two_pow_sub_one, hdiv]
    by_cases hw : i < w
    · have hlt : i - k < w - k := by omega
      simp [hi, hlt]
    · -- beyond the word there is nothing to cut off
      have hzero : (n / 2 ^ k).testBit (i - k) = false := by
        rw [← hdiv]
        have hle : 2 ^ w ≤ 2 ^ i := Nat.pow_le_pow_right (by norm_num) (not_lt.mp hw)
        exact Nat.testBit_lt_two_pow (hn.trans_le hle)
      simp [hzero]
  · simp [hi]

end Foundation
end EgosNet
