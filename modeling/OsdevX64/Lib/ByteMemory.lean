import Mathlib.Algebra.Ring.Int.Defs
import Mathlib.Data.BitVec
import Mathlib.Logic.Function.Basic
import Mathlib.Tactic.Ring

/-!
# Byte-addressed memory

A flat memory assigns a byte to every address.  The address type is a
parameter: the machine addresses of a 64-bit CPU (`BitVec 64`, which wrap) and
the offsets into one C object (`ℕ`, which do not) are the two instances the
developments on top of this file use.

Multi-byte objects are little-endian.  `loadLE` and `storeLE` recurse on the
number of bytes, and every law about them needs a single fact about the address
type: the `n` offsets `0, …, n-1` are pairwise distinct (`OffsetsDistinct`).

* `loadLE_storeLE_same` — what was stored is loaded, modulo its width.
* `loadLE_storeLE_disjoint` — a store elsewhere is not seen.
-/

namespace ByteMemory

/-- An 8-bit byte. -/
abbrev Byte := BitVec 8

/-- A flat memory over the address type `A`. -/
abbrev Memory (A : Type*) := A → Byte

section Generic

variable {A : Type*} [AddMonoidWithOne A]

/-- The little-endian value of the `n` bytes from `a` on. -/
def loadLE (m : Memory A) (a : A) : ℕ → ℕ
  | 0 => 0
  | n + 1 => loadLE m a n + 256 ^ n * (m (a + (n : A))).toNat

/-- Store the `n` low bytes of `v` from `a` on, low byte first. -/
def storeLE [DecidableEq A] (m : Memory A) (a : A) : ℕ → ℕ → Memory A
  | 0, _ => m
  | n + 1, v =>
      Function.update (storeLE m a n v) (a + (n : A)) (BitVec.ofNat 8 (v / 256 ^ n))

theorem loadLE_lt (m : Memory A) (a : A) (n : ℕ) : loadLE m a n < 256 ^ n := by
  induction n with
  | zero => simp [loadLE]
  | succ n ih =>
      have hbyte : (m (a + (n : A))).toNat ≤ 255 := by
        have := (m (a + (n : A))).isLt
        omega
      have hmul : 256 ^ n * (m (a + (n : A))).toNat ≤ 256 ^ n * 255 :=
        Nat.mul_le_mul_left _ hbyte
      rw [loadLE, pow_succ]
      omega

/-- A load reads its `n` bytes and nothing else. -/
theorem loadLE_congr {m m' : Memory A} {a a' : A} {n : ℕ}
    (h : ∀ i < n, m (a + (i : A)) = m' (a' + (i : A))) :
    loadLE m a n = loadLE m' a' n := by
  induction n with
  | zero => rfl
  | succ n ih =>
      rw [loadLE, loadLE, ih fun i hi => h i (by omega), h n (by omega)]

/-- The offsets `0, …, n-1` name pairwise distinct addresses from any base. -/
def OffsetsDistinct (A : Type*) [AddMonoidWithOne A] (n : ℕ) : Prop :=
  ∀ (a : A) (i j : ℕ), i < n → j < n → a + (i : A) = a + (j : A) → i = j

theorem OffsetsDistinct.mono {n k : ℕ} (h : OffsetsDistinct A n) (hk : k ≤ n) :
    OffsetsDistinct A k :=
  fun a i j hi hj => h a i j (by omega) (by omega)

variable [DecidableEq A]

/-- A store leaves every other address alone. -/
theorem storeLE_of_ne {m : Memory A} {a b : A} {n v : ℕ}
    (h : ∀ i < n, b ≠ a + (i : A)) : storeLE m a n v b = m b := by
  induction n with
  | zero => rfl
  | succ n ih =>
      rw [storeLE, Function.update_of_ne (h n (by omega)), ih fun i hi => h i (by omega)]

/-- Byte `i` of a stored value. -/
theorem storeLE_apply {m : Memory A} {a : A} {n v i : ℕ}
    (hd : OffsetsDistinct A n) (hi : i < n) :
    storeLE m a n v (a + (i : A)) = BitVec.ofNat 8 (v / 256 ^ i) := by
  induction n with
  | zero => omega
  | succ n ih =>
      rw [storeLE]
      by_cases hin : i = n
      · rw [hin, Function.update_self]
      · have hne : a + (i : A) ≠ a + (n : A) :=
          fun h => hin (hd a i n hi (by omega) h)
        rw [Function.update_of_ne hne, ih (hd.mono (by omega)) (by omega)]

/-- The first `k` bytes of a stored `n`-byte value, read back. -/
theorem loadLE_storeLE_prefix {m : Memory A} {a : A} {n v k : ℕ}
    (hd : OffsetsDistinct A n) (hk : k ≤ n) :
    loadLE (storeLE m a n v) a k = v % 256 ^ k := by
  induction k with
  | zero => simp [loadLE, Nat.mod_one]
  | succ k ih =>
      rw [loadLE, ih (by omega), storeLE_apply hd (by omega), BitVec.toNat_ofNat,
        pow_succ 256 k, Nat.mod_mul]

/-- **What was stored is loaded**, modulo its width. -/
theorem loadLE_storeLE_same {m : Memory A} {a : A} {n v : ℕ}
    (hd : OffsetsDistinct A n) : loadLE (storeLE m a n v) a n = v % 256 ^ n :=
  loadLE_storeLE_prefix hd le_rfl

/-- **A store elsewhere is not seen.** -/
theorem loadLE_storeLE_disjoint {m : Memory A} {a b : A} {n k v : ℕ}
    (h : ∀ i < k, ∀ j < n, b + (i : A) ≠ a + (j : A)) :
    loadLE (storeLE m a n v) b k = loadLE m b k :=
  loadLE_congr fun i hi => storeLE_of_ne (h i hi)

end Generic

/-! ## The two address types -/

theorem offsetsDistinct_nat (n : ℕ) : OffsetsDistinct ℕ n := by
  intro a i j _ _ h
  simpa using h

/-- On a `w`-bit address space the offsets are distinct up to its size. -/
theorem offsetsDistinct_bitVec {w n : ℕ} (hn : n ≤ 2 ^ w) :
    OffsetsDistinct (BitVec w) n := by
  intro a i j hi hj h
  have hij : BitVec.ofNat w i = BitVec.ofNat w j := add_left_cancel h
  have := congrArg BitVec.toNat hij
  simpa [Nat.mod_eq_of_lt (show i < 2 ^ w by omega),
    Nat.mod_eq_of_lt (show j < 2 ^ w by omega)] using this

end ByteMemory
