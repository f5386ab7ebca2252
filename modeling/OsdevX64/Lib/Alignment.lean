import Mathlib.Data.Nat.Bitwise
import Mathlib.Algebra.Order.Group.Nat
import Mathlib.Order.Bounds.Basic

/-!
# Rounding up to a power of two

`roundUp n a` is the least multiple of `a` from `n` on.  Machine code finds it
with a mask, which needs a power of two, and modulo the size of a word;
`BitVec.toNat_and_twoPow_sub_one` reads the mask as a remainder.
-/

namespace Alignment

/-- The least multiple of `a` from `n` on. -/
def roundUp (n a : ℕ) : ℕ := (n + (a - 1)) / a * a

/-- A multiple is its own rounding. -/
theorem roundUp_of_mod_eq_zero {n a : ℕ} (ha : 0 < a) (h : n % a = 0) : roundUp n a = n := by
  obtain ⟨m, rfl⟩ := Nat.dvd_of_mod_eq_zero h
  have hdiv : (a * m + (a - 1)) / a = m := by
    rw [Nat.mul_add_div ha, Nat.div_eq_of_lt (Nat.sub_lt ha Nat.one_pos), Nat.add_zero]
  rw [roundUp, hdiv, Nat.mul_comm]

/-- Everything else is rounded by what is missing from the modulus. -/
theorem roundUp_of_mod_ne_zero {n a : ℕ} (ha : 0 < a) (h : n % a ≠ 0) :
    roundUp n a = n + a - n % a := by
  have hlt := Nat.mod_lt n ha
  have hn : n + (a - 1) = a * (n / a + 1) + (n % a - 1) := by
    have hsplit := Nat.div_add_mod n a
    rw [Nat.mul_add, Nat.mul_one]
    omega
  have hdiv : (n + (a - 1)) / a = n / a + 1 := by
    rw [hn, Nat.mul_add_div ha, Nat.div_eq_of_lt (by omega : n % a - 1 < a), Nat.add_zero]
  have hsplit := Nat.div_add_mod n a
  rw [roundUp, hdiv, Nat.mul_comm, Nat.mul_add, Nat.mul_one]
  omega

theorem le_roundUp {n a : ℕ} (ha : 0 < a) : n ≤ roundUp n a := by
  have hlt := Nat.mod_lt n ha
  by_cases h : n % a = 0
  · exact (roundUp_of_mod_eq_zero ha h).ge
  · rw [roundUp_of_mod_ne_zero ha h]
    omega

/-- No multiple lies between a number and its rounding. -/
theorem roundUp_le {n a q : ℕ} (ha : 0 < a) (hq : a ∣ q) (h : n ≤ q) : roundUp n a ≤ q := by
  obtain ⟨m, rfl⟩ := hq
  have hdiv : (n + (a - 1)) / a ≤ m := by
    have hlt : n + (a - 1) < a * (m + 1) := by
      rw [Nat.mul_add, Nat.mul_one]
      omega
    exact Nat.le_of_lt_succ (Nat.div_lt_of_lt_mul hlt)
  calc roundUp n a ≤ m * a := Nat.mul_le_mul_right a hdiv
    _ = a * m := Nat.mul_comm m a

/-- A rounding is what its name says. -/
theorem roundUp_isLeast {a : ℕ} (ha : 0 < a) (n : ℕ) :
    IsLeast {q | a ∣ q ∧ n ≤ q} (roundUp n a) :=
  ⟨⟨Nat.dvd_mul_left a _, le_roundUp ha⟩, fun _ hq => roundUp_le ha hq.1 hq.2⟩

/-- **A mask of ones is a remainder.** -/
theorem toNat_and_twoPow_sub_one {w k : ℕ} (n : BitVec w) (hk : k < w) :
    (n &&& (BitVec.twoPow w k - 1)).toNat = n.toNat % 2 ^ k := by
  have hpow : 2 ^ k < 2 ^ w := Nat.pow_lt_pow_right Nat.one_lt_two hk
  have hone : (1 : BitVec w).toNat = 1 :=
    BitVec.toNat_one (Nat.lt_of_le_of_lt (Nat.zero_le k) hk)
  have htwo : (BitVec.twoPow w k).toNat = 2 ^ k := by
    rw [BitVec.toNat_twoPow, Nat.mod_eq_of_lt hpow]
  have hle : (1 : BitVec w) ≤ BitVec.twoPow w k := by
    rw [BitVec.le_def, hone, htwo]
    exact Nat.one_le_two_pow
  rw [BitVec.toNat_and, BitVec.toNat_sub_of_le hle, hone, htwo, Nat.and_two_pow_sub_one_eq_mod]

end Alignment
