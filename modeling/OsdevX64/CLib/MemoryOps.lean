import OsdevX64.Lib.MachineInt
import OsdevX64.Lib.Tracked

/-!
# The memory functions of `string.c`

A pointer is the offset of a cell in its object; the bytes of a C object do not
wrap around the address space, so offsets are natural numbers.  The loops of the
source run over a remaining count, which is their termination argument.

* `memmove_cell` — `memmove` copies under any overlap.
* `memset16_half`, `memset32_cell` — the fills.
* `memmove_within` and its siblings — which cells a call touches.
-/

namespace OsdevX64.CLib

open ByteMemory

variable {α : Type*}

/-! ## The functions -/

/-- The loop of `memset32`, on an object made of 32-bit words. -/
def memset32 (t : Tracked ℕ (BitVec 32)) (start : ℕ) (value : BitVec 32) :
    ℕ → Tracked ℕ (BitVec 32)
  | 0 => t
  | count + 1 => memset32 (t.write start value) (start + 1) value count

/-- The loop of `memset16`; `start` is a byte offset. -/
def memset16 (t : Tracked ℕ Byte) (start value : ℕ) : ℕ → Tracked ℕ Byte
  | 0 => t
  | count + 1 => memset16 (t.storeBytes start 2 value) (start + 2) value count

/-- The ascending loop of `memmove`. -/
def copyUp (t : Tracked ℕ α) (d s : ℕ) : ℕ → Tracked ℕ α
  | 0 => t
  | len + 1 =>
      let (b, t) := t.read s
      copyUp (t.write d b) (d + 1) (s + 1) len

/-- The descending loop of `memmove`. -/
def copyDown (t : Tracked ℕ α) (lastd lasts : ℕ) : ℕ → Tracked ℕ α
  | 0 => t
  | len + 1 =>
      let (b, t) := t.read lasts
      copyDown (t.write lastd b) (lastd - 1) (lasts - 1) len

/-- `memmove`.  For `len = 0` the source forms pointers one below the objects,
which it never dereferences. -/
def memmove (t : Tracked ℕ α) (dest src len : ℕ) : Tracked ℕ α :=
  if dest < src then copyUp t dest src len
  else copyDown t (dest + (len - 1)) (src + (len - 1)) len

/-! ## `memmove` -/

theorem copyUp_cell {d s : ℕ} (h : d < s) (t : Tracked ℕ α) (len k : ℕ) :
    (copyUp t d s len).cell k =
      if d ≤ k ∧ k < d + len then t.cell (s + (k - d)) else t.cell k := by
  induction len generalizing t d s with
  | zero => simp [copyUp, show ¬ (d ≤ k ∧ k < d) by omega]
  | succ len ih =>
      rw [copyUp, ih (by omega)]
      simp only [Tracked.cell_write, Tracked.cell_read, Tracked.read_fst, Function.update_apply]
      -- the source cells above `d` are still intact
      rcases lt_trichotomy k d with hk | rfl | hk
      · rw [if_neg (by omega), if_neg (by omega), if_neg (by omega)]
      · rw [if_neg (by omega), if_pos rfl, if_pos (by omega), Nat.sub_self, Nat.add_zero]
      · by_cases hin : k < d + (len + 1)
        · rw [if_pos (by omega), if_neg (by omega), if_pos (by omega)]
          congr 1
          omega
        · rw [if_neg (by omega), if_neg (by omega), if_neg (by omega)]

theorem copyDown_cell {d s : ℕ} (h : s ≤ d) (t : Tracked ℕ α) (len k : ℕ) :
    (copyDown t (d + (len - 1)) (s + (len - 1)) len).cell k =
      if d ≤ k ∧ k < d + len then t.cell (s + (k - d)) else t.cell k := by
  induction len generalizing t with
  | zero => simp [copyDown, show ¬ (d ≤ k ∧ k < d) by omega]
  | succ len ih =>
      have hrest := ih ((t.read (s + len)).2.write (d + len) (t.read (s + len)).1)
      have hd : d + len - 1 = d + (len - 1) ∨ len = 0 := by omega
      have hs : s + len - 1 = s + (len - 1) ∨ len = 0 := by omega
      have hstep : copyDown t (d + (len + 1 - 1)) (s + (len + 1 - 1)) (len + 1) =
          copyDown ((t.read (s + len)).2.write (d + len) (t.read (s + len)).1)
            (d + (len - 1)) (s + (len - 1)) len := by
        rw [copyDown]
        rcases hd with hd | rfl
        · rcases hs with hs | rfl
          · simp only [Nat.add_sub_cancel, hd, hs]
          · rfl
        · rfl
      rw [hstep, hrest]
      simp only [Tracked.cell_write, Tracked.cell_read, Tracked.read_fst, Function.update_apply]
      -- the source cells below `d + len` are still intact
      rcases lt_trichotomy k (d + len) with hk | rfl | hk
      · by_cases hin : d ≤ k
        · rw [if_pos (by omega), if_neg (by omega), if_pos (by omega)]
        · rw [if_neg (by omega), if_neg (by omega), if_neg (by omega)]
      · rw [if_neg (by omega), if_pos rfl, if_pos (by omega), Nat.add_sub_cancel_left]
      · rw [if_neg (by omega), if_neg (by omega), if_neg (by omega)]

/-- **`memmove` copies under any overlap** and changes nothing else. -/
theorem memmove_cell (t : Tracked ℕ α) (dest src len k : ℕ) :
    (memmove t dest src len).cell k =
      if dest ≤ k ∧ k < dest + len then t.cell (src + (k - dest)) else t.cell k := by
  unfold memmove
  split
  · exact copyUp_cell ‹_› t len k
  · exact copyDown_cell (by omega) t len k

theorem copyUp_within {P : ℕ → Prop} {t : Tracked ℕ α} (h : t.Within P) {d s len : ℕ}
    (hd : ∀ i < len, P (d + i)) (hs : ∀ i < len, P (s + i)) :
    (copyUp t d s len).Within P := by
  induction len generalizing t d s with
  | zero => exact h
  | succ len ih =>
      refine ih ((h.read (hs 0 (by omega))).write (hd 0 (by omega)) _) ?_ ?_
      · intro i hi
        have := hd (i + 1) (by omega)
        rwa [show d + 1 + i = d + (i + 1) by omega]
      · intro i hi
        have := hs (i + 1) (by omega)
        rwa [show s + 1 + i = s + (i + 1) by omega]

theorem copyDown_within {P : ℕ → Prop} {t : Tracked ℕ α} (h : t.Within P) {lastd lasts len : ℕ}
    (hd : ∀ i < len, P (lastd - i)) (hs : ∀ i < len, P (lasts - i)) :
    (copyDown t lastd lasts len).Within P := by
  induction len generalizing t lastd lasts with
  | zero => exact h
  | succ len ih =>
      refine ih ((h.read (hs 0 (by omega))).write (hd 0 (by omega)) _) ?_ ?_
      · intro i hi
        have := hd (i + 1) (by omega)
        rwa [show lastd - 1 - i = lastd - (i + 1) by omega]
      · intro i hi
        have := hs (i + 1) (by omega)
        rwa [show lasts - 1 - i = lasts - (i + 1) by omega]

/-- `memmove` touches its two ranges only. -/
theorem memmove_within {P : ℕ → Prop} {t : Tracked ℕ α} (h : t.Within P) {dest src len : ℕ}
    (hd : ∀ i < len, P (dest + i)) (hs : ∀ i < len, P (src + i)) :
    (memmove t dest src len).Within P := by
  unfold memmove
  split
  · exact copyUp_within h hd hs
  · refine copyDown_within h (fun i hi => ?_) (fun i hi => ?_)
    · rw [show dest + (len - 1) - i = dest + (len - 1 - i) by omega]
      exact hd _ (by omega)
    · rw [show src + (len - 1) - i = src + (len - 1 - i) by omega]
      exact hs _ (by omega)

/-! ## The fills -/

theorem memset32_cell (t : Tracked ℕ (BitVec 32)) (start : ℕ) (value : BitVec 32)
    (count k : ℕ) :
    (memset32 t start value count).cell k =
      if start ≤ k ∧ k < start + count then value else t.cell k := by
  induction count generalizing t start with
  | zero => simp [memset32, show ¬ (start ≤ k ∧ k < start) by omega]
  | succ count ih =>
      rw [memset32, ih, Tracked.cell_write, Function.update_apply]
      split_ifs <;> first | rfl | omega

theorem memset32_within {P : ℕ → Prop} {t : Tracked ℕ (BitVec 32)} (h : t.Within P)
    {start count : ℕ} (value : BitVec 32) (hs : ∀ i < count, P (start + i)) :
    (memset32 t start value count).Within P := by
  induction count generalizing t start with
  | zero => exact h
  | succ count ih =>
      refine ih (h.write (hs 0 (by omega)) value) fun i hi => ?_
      have := hs (i + 1) (by omega)
      rwa [show start + 1 + i = start + (i + 1) by omega]

/-- The 16-bit cell `i` of an object. -/
def half (m : Memory ℕ) (i : ℕ) : ℕ := loadLE m (2 * i) 2

theorem half_lt (m : Memory ℕ) (i : ℕ) : half m i < 2 ^ 16 := loadLE_lt m (2 * i) 2

theorem half_congr {m m' : Memory ℕ} {i j : ℕ}
    (h : ∀ b < 2, m (2 * i + b) = m' (2 * j + b)) : half m i = half m' j :=
  loadLE_congr fun b hb => by simpa using h b hb

/-- A 16-bit store changes its own cell only. -/
theorem half_storeLE (m : Memory ℕ) (i v k : ℕ) :
    half (storeLE m (2 * i) 2 v) k = if k = i then v % 2 ^ 16 else half m k := by
  split_ifs with hki
  · rw [hki]
    exact loadLE_storeLE_same (offsetsDistinct_nat 2)
  · refine loadLE_storeLE_disjoint fun a ha b hb => ?_
    simp only [Nat.cast_id]
    omega

/-- **`memset16` fills its cells** and changes nothing else. -/
theorem memset16_half (t : Tracked ℕ Byte) (s value count k : ℕ) :
    half (memset16 t (2 * s) value count).cell k =
      if s ≤ k ∧ k < s + count then value % 2 ^ 16 else half t.cell k := by
  induction count generalizing t s with
  | zero => simp [memset16, show ¬ (s ≤ k ∧ k < s) by omega]
  | succ count ih =>
      rw [memset16, show 2 * s + 2 = 2 * (s + 1) by omega, ih, Tracked.cell_storeBytes,
        half_storeLE]
      split_ifs <;> first | rfl | omega

theorem memset16_within {P : ℕ → Prop} {t : Tracked ℕ Byte} (h : t.Within P)
    {start value count : ℕ} (hs : ∀ i < 2 * count, P (start + i)) :
    (memset16 t start value count).Within P := by
  induction count generalizing t start with
  | zero => exact h
  | succ count ih =>
      refine ih (h.storeBytes fun i hi => by simpa using hs i (by omega)) fun i hi => ?_
      have := hs (i + 2) (by omega)
      rwa [show start + 2 + i = start + (i + 2) by omega]

end OsdevX64.CLib
