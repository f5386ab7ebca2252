import Mathlib.Data.Nat.Notation
import Mathlib.Tactic.SplitIfs

/-!
# Xor with the own shift

`left k x` is `x ^ (x << k)` and `arith k x` is `x ^ (x >> k)` with an arithmetic
shift, for words of any width.  Both commute with `^`, so what they identify is a
question about the words that they send to 0 (`eq_iff_of_xor`).

A word is its own left shift only if it is 0, so **`left k` is injective**
(`left_eq_iff`).  It is its own arithmetic right shift also if all its bits are 1, so
**`arith k` identifies every word with its complement** (`arith_eq_iff`), and nothing
that it returns has its top bit set (`msb_arith`).
-/

namespace XorShift

variable {w : ℕ}

/-- `x ^ (x << k)`. -/
def left (k : ℕ) (x : BitVec w) : BitVec w := x ^^^ x <<< k

/-- `x ^ (x >> k)`, with an arithmetic shift. -/
def arith (k : ℕ) (x : BitVec w) : BitVec w := x ^^^ x.sshiftRight k

/-- A function that commutes with `^` identifies two words exactly if it sends their
difference to 0. -/
theorem eq_iff_of_xor {f : BitVec w → BitVec w} (hf : ∀ x y, f (x ^^^ y) = f x ^^^ f y)
    (x y : BitVec w) : f x = f y ↔ f (x ^^^ y) = 0#w := by
  rw [hf, BitVec.xor_eq_zero_iff]

/-! ## Left shifts -/

theorem left_xor (k : ℕ) (x y : BitVec w) : left k (x ^^^ y) = left k x ^^^ left k y := by
  unfold left
  rw [BitVec.shiftLeft_xor_distrib]
  ac_rfl

/-- A word that is its own left shift has no lowest bit. -/
theorem eq_shiftLeft_iff {k : ℕ} (hk : 0 < k) (x : BitVec w) : x = x <<< k ↔ x = 0#w := by
  constructor
  · intro hx
    have hbit : ∀ i, x.getLsbD i = false := by
      intro i
      induction i using Nat.strongRecOn with
      | ind i ih =>
          rw [hx, BitVec.getLsbD_shiftLeft]
          by_cases hik : i < k
          · rw [decide_eq_true hik, Bool.not_true, Bool.and_false, Bool.false_and]
          · rw [ih (i - k) (by omega), Bool.and_false]
    exact BitVec.eq_of_getLsbD_eq fun i _ => by rw [hbit, BitVec.getLsbD_zero]
  · rintro rfl
    exact (BitVec.zero_shiftLeft k).symm

theorem left_eq_zero_iff {k : ℕ} (hk : 0 < k) (x : BitVec w) : left k x = 0#w ↔ x = 0#w :=
  BitVec.xor_eq_zero_iff.trans (eq_shiftLeft_iff hk x)

/-- **With a left shift nothing is lost.** -/
theorem left_eq_iff {k : ℕ} (hk : 0 < k) (x y : BitVec w) : left k x = left k y ↔ x = y := by
  rw [eq_iff_of_xor (left_xor k), left_eq_zero_iff hk, BitVec.xor_eq_zero_iff]

/-! ## Arithmetic right shifts -/

theorem arith_xor (k : ℕ) (x y : BitVec w) : arith k (x ^^^ y) = arith k x ^^^ arith k y := by
  unfold arith
  rw [BitVec.sshiftRight_xor_distrib]
  ac_rfl

/-- The bits of a word that is its own arithmetic shift are all the top bit. -/
theorem eq_sshiftRight_iff {k : ℕ} (hk : 0 < k) (x : BitVec w) :
    x = x.sshiftRight k ↔ x = 0#w ∨ x = BitVec.allOnes w := by
  constructor
  · intro hx
    have hbit : ∀ j i, i + j = w → i < w → x.getLsbD i = x.msb := by
      intro j
      induction j using Nat.strongRecOn with
      | ind j ih =>
          intro i hij hi
          rw [hx, BitVec.getLsbD_sshiftRight, BitVec.msb_sshiftRight,
            decide_eq_false (Nat.not_le_of_lt hi), Bool.not_false, Bool.true_and]
          split_ifs with hki
          · exact ih (j - k) (by omega) (k + i) (by omega) hki
          · rfl
    cases hmsb : x.msb with
    | false =>
        refine Or.inl (BitVec.eq_of_getLsbD_eq fun i hi => ?_)
        rw [hbit (w - i) i (by omega) hi, hmsb, BitVec.getLsbD_zero]
    | true =>
        refine Or.inr (BitVec.eq_of_getLsbD_eq fun i hi => ?_)
        rw [hbit (w - i) i (by omega) hi, hmsb, BitVec.getLsbD_allOnes, decide_eq_true hi]
  · rintro (rfl | rfl)
    · exact BitVec.zero_sshiftRight.symm
    · refine BitVec.eq_of_getLsbD_eq fun i hi => ?_
      have hmsb : (BitVec.allOnes w).msb = true := by
        rw [BitVec.msb_eq_getLsbD_last, BitVec.getLsbD_allOnes, decide_eq_true (by omega)]
      rw [BitVec.getLsbD_sshiftRight, hmsb, BitVec.getLsbD_allOnes, BitVec.getLsbD_allOnes,
        decide_eq_true hi, decide_eq_false (Nat.not_le_of_lt hi), Bool.not_false, Bool.true_and]
      split_ifs with hki
      · exact (decide_eq_true hki).symm
      · rfl

theorem arith_eq_zero_iff {k : ℕ} (hk : 0 < k) (x : BitVec w) :
    arith k x = 0#w ↔ x = 0#w ∨ x = BitVec.allOnes w :=
  BitVec.xor_eq_zero_iff.trans (eq_sshiftRight_iff hk x)

/-- **With an arithmetic shift a word and its complement are taken for each other.** -/
theorem arith_eq_iff {k : ℕ} (hk : 0 < k) (x y : BitVec w) :
    arith k x = arith k y ↔ x = y ∨ x ^^^ y = BitVec.allOnes w := by
  rw [eq_iff_of_xor (arith_xor k), arith_eq_zero_iff hk, BitVec.xor_eq_zero_iff]

/-- The sign is shifted into itself. -/
theorem msb_arith (k : ℕ) (x : BitVec w) : (arith k x).msb = false := by
  rw [arith, BitVec.msb_xor, BitVec.msb_sshiftRight, Bool.xor_self]

end XorShift
