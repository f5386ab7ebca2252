import Mathlib.Data.Int.Basic
import Mathlib.Data.Nat.Bitwise
import Mathlib.Tactic.Ring

/-!
# Fixed-width integers as numbers

A C integer type is modelled by the numbers it represents, and every operation
that can leave its range is followed by the wrap of that type: `u8`, `u16`,
`u32`, `u64` for the unsigned types, `i8`, `i16`, `i32` for the signed ones.
`sub32` and `sub64` are the unsigned differences.

In range a wrap is the identity (`u32_of_lt` and its siblings), so a proof
carries bounds and drops the wraps.
-/

namespace MachineInt

/-- Conversion to an 8-bit unsigned integer. -/
def u8 (n : ℕ) : ℕ := n % 2 ^ 8

/-- Conversion to a 16-bit unsigned integer. -/
def u16 (n : ℕ) : ℕ := n % 2 ^ 16

/-- Conversion to a 32-bit unsigned integer. -/
def u32 (n : ℕ) : ℕ := n % 2 ^ 32

/-- Conversion to a 64-bit unsigned integer. -/
def u64 (n : ℕ) : ℕ := n % 2 ^ 64

/-- Conversion to an 8-bit two's-complement integer. -/
def i8 (z : ℤ) : ℤ := z.bmod (2 ^ 8)

/-- Conversion to a 16-bit two's-complement integer. -/
def i16 (z : ℤ) : ℤ := z.bmod (2 ^ 16)

/-- Conversion to a 32-bit two's-complement integer. -/
def i32 (z : ℤ) : ℤ := z.bmod (2 ^ 32)

/-- Conversion of a signed to a 32-bit unsigned integer. -/
def u32OfInt (z : ℤ) : ℕ := (z % 2 ^ 32).toNat

/-- Conversion of a signed to a 64-bit unsigned integer. -/
def u64OfInt (z : ℤ) : ℕ := (z % 2 ^ 64).toNat

/-- The unsigned 32-bit difference `a - b` of two 32-bit values. -/
def sub32 (a b : ℕ) : ℕ := if b ≤ a then a - b else a + 2 ^ 32 - b

/-- The unsigned 64-bit difference `a - b` of two 64-bit values. -/
def sub64 (a b : ℕ) : ℕ := if b ≤ a then a - b else a + 2 ^ 64 - b

theorem u16_of_lt {n : ℕ} (h : n < 2 ^ 16) : u16 n = n := Nat.mod_eq_of_lt h

theorem u32_of_lt {n : ℕ} (h : n < 2 ^ 32) : u32 n = n := Nat.mod_eq_of_lt h

theorem u64_lt (n : ℕ) : u64 n < 2 ^ 64 := Nat.mod_lt _ (by omega)

theorem u64_u64_add (a b : ℕ) : u64 (u64 a + b) = u64 (a + b) := Nat.mod_add_mod a _ b

theorem sub64_of_le {a b : ℕ} (hb : b ≤ a) : sub64 a b = a - b := if_pos hb

/-- A counter that has moved by `k` differs by `k`, also if it wrapped. -/
theorem sub64_u64_add {a k : ℕ} (ha : a < 2 ^ 64) (hk : k < 2 ^ 64) :
    sub64 (u64 (a + k)) a = k := by
  unfold sub64 u64
  split_ifs <;> omega

theorem sub32_of_le {a b : ℕ} (hb : b ≤ a) : sub32 a b = a - b := if_pos hb

/-! ## Packing bit fields -/

/-- Bit fields that do not overlap are added. -/
theorem lor_shiftLeft_of_lt {lo hi k : ℕ} (h : lo < 2 ^ k) :
    lo ||| hi <<< k = lo + 2 ^ k * hi := by
  rw [Nat.shiftLeft_eq, Nat.lor_comm, mul_comm hi, ← Nat.two_pow_add_eq_or_of_lt h, add_comm]

end MachineInt
