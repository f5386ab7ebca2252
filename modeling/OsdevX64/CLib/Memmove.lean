import OsdevX64.CLib.MemoryOps

/-!
# `memmove` on machine addresses

`CLib.memmove` copies inside one object and counts offsets from 0.  The function
of `string.c` is given two addresses, which wrap: `d < s` compares them as
unsigned numbers, `s + (len - 1)` may be computed modulo `2 ^ 64`, and the
pointers take one step more than the copy needs.

`Holds` relates the two: as long as neither range wraps, **every access of the
machine loop is the access of the loop on offsets** (`memmove_holds`).  The
overlap is then settled by `memmove_cell`, for either direction.
-/

namespace OsdevX64.CLib.Flat

open ByteMemory

/-- A machine address. -/
abbrev Addr := BitVec 64

/-! ## The function -/

/-- The ascending loop of `memmove`. -/
def copyUp (m : Memory Addr) (d s : Addr) : ℕ → Memory Addr
  | 0 => m
  | len + 1 => copyUp (Function.update m d (m s)) (d + 1) (s + 1) len

/-- The descending loop of `memmove`. -/
def copyDown (m : Memory Addr) (lastd lasts : Addr) : ℕ → Memory Addr
  | 0 => m
  | len + 1 => copyDown (Function.update m lastd (m lasts)) (lastd - 1) (lasts - 1) len

/-- `memmove`: the pointer returned and the memory. -/
def memmove (m : Memory Addr) (dest src len : Addr) : Addr × Memory Addr :=
  let d := dest
  let s := src
  if d < s then
    (dest, copyUp m d s len.toNat)
  else
    -- for `len = 0` both pointers lie outside the ranges and are not used
    let lasts := s + (len - 1)
    let lastd := d + (len - 1)
    (dest, copyDown m lastd lasts len.toNat)

/-! ## The loops on offsets -/

/-- The array holds the bytes of the memory, at their addresses. -/
def Holds (t : Tracked ℕ Byte) (m : Memory Addr) : Prop := ∀ a : Addr, m a = t.cell a.toNat

/-- A memory as an array. -/
def arrayOf (m : Memory Addr) : Tracked ℕ Byte := .fresh fun k => m (BitVec.ofNat 64 k)

theorem holds_arrayOf (m : Memory Addr) : Holds (arrayOf m) m := by
  intro a
  change m a = m (BitVec.ofNat 64 a.toNat)
  rw [BitVec.ofNat_toNat, BitVec.setWidth_eq]

/-- One round of either loop: a byte is read and written. -/
theorem Holds.move {t : Tracked ℕ Byte} {m : Memory Addr} (h : Holds t m) (d s : Addr) :
    Holds ((t.read s.toNat).2.write d.toNat (t.read s.toNat).1) (Function.update m d (m s)) := by
  intro a
  rw [Tracked.cell_write, Tracked.cell_read, Tracked.read_fst, Function.update_apply,
    Function.update_apply, h s, h a]
  by_cases had : a = d
  · rw [if_pos had, if_pos (congrArg BitVec.toNat had)]
  · rw [if_neg had, if_neg fun heq => had (BitVec.eq_of_toNat_eq heq)]

theorem copyUp_holds {t : Tracked ℕ Byte} {m : Memory Addr} (h : Holds t m) {d s : Addr} {len : ℕ}
    (hd : d.toNat + len ≤ 2 ^ 64) (hs : s.toNat + len ≤ 2 ^ 64) :
    Holds (CLib.copyUp t d.toNat s.toNat len) (copyUp m d s len) := by
  induction len generalizing t m d s with
  | zero => exact h
  | succ len ih =>
      rcases Nat.eq_zero_or_pos len with rfl | hpos
      -- after the last round the pointers may wrap
      · exact h.move d s
      · have hdnext : (d + 1).toNat = d.toNat + 1 :=
          BitVec.toNat_add_of_lt (by change d.toNat + 1 < 2 ^ 64; omega)
        have hsnext : (s + 1).toNat = s.toNat + 1 :=
          BitVec.toNat_add_of_lt (by change s.toNat + 1 < 2 ^ 64; omega)
        have hrest := @ih _ _ (h.move d s) (d + 1) (s + 1) (by omega) (by omega)
        rw [hdnext, hsnext] at hrest
        exact hrest

theorem copyDown_holds {t : Tracked ℕ Byte} {m : Memory Addr} (h : Holds t m)
    {lastd lasts : Addr} {len : ℕ} (hd : len ≤ lastd.toNat + 1) (hs : len ≤ lasts.toNat + 1) :
    Holds (CLib.copyDown t lastd.toNat lasts.toNat len) (copyDown m lastd lasts len) := by
  induction len generalizing t m lastd lasts with
  | zero => exact h
  | succ len ih =>
      rcases Nat.eq_zero_or_pos len with rfl | hpos
      · exact h.move lastd lasts
      · have hdnext : (lastd - 1).toNat = lastd.toNat - 1 :=
          BitVec.toNat_sub_of_le (by change 1 ≤ lastd.toNat; omega)
        have hsnext : (lasts - 1).toNat = lasts.toNat - 1 :=
          BitVec.toNat_sub_of_le (by change 1 ≤ lasts.toNat; omega)
        have hrest := @ih _ _ (h.move lastd lasts) (lastd - 1) (lasts - 1) (by omega) (by omega)
        rw [hdnext, hsnext] at hrest
        exact hrest

/-- The last address of a range that does not wrap. -/
theorem toNat_last {a len : Addr} (hlen : 0 < len.toNat) (ha : a.toNat + len.toNat ≤ 2 ^ 64) :
    (a + (len - 1)).toNat = a.toNat + (len.toNat - 1) := by
  have hpred : (len - 1).toNat = len.toNat - 1 := BitVec.toNat_sub_of_le hlen
  rw [BitVec.toNat_add_of_lt (by rw [hpred]; omega), hpred]

/-- **The machine function is the function on offsets**, where neither range
wraps. -/
theorem memmove_holds {t : Tracked ℕ Byte} {m : Memory Addr} (h : Holds t m) {dest src len : Addr}
    (hdest : dest.toNat + len.toNat ≤ 2 ^ 64) (hsrc : src.toNat + len.toNat ≤ 2 ^ 64) :
    Holds (CLib.memmove t dest.toNat src.toNat len.toNat) (memmove m dest src len).2 := by
  unfold memmove CLib.memmove
  dsimp only
  by_cases hlt : dest < src
  · rw [if_pos hlt, if_pos (BitVec.lt_def.mp hlt)]
    exact copyUp_holds h hdest hsrc
  · rw [if_neg hlt, if_neg fun hnat => hlt (BitVec.lt_def.mpr hnat)]
    rcases Nat.eq_zero_or_pos len.toNat with hzero | hpos
    · rw [hzero]
      exact h
    · rw [← toNat_last hpos hdest, ← toNat_last hpos hsrc]
      have hlastd := toNat_last hpos hdest
      have hlasts := toNat_last hpos hsrc
      exact copyDown_holds h (by omega) (by omega)

/-! ## The copy -/

/-- The addresses `[start, start + len)`. -/
def InRange (start len a : Addr) : Prop :=
  start.toNat ≤ a.toNat ∧ a.toNat < start.toNat + len.toNat

/-- **`memmove` copies its source as it was**, whatever the overlap, and changes
nothing outside its destination. -/
theorem memmove_copies (m : Memory Addr) (dest src len : Addr)
    (hdest : dest.toNat + len.toNat ≤ 2 ^ 64) (hsrc : src.toNat + len.toNat ≤ 2 ^ 64) :
    (∀ i < len, (memmove m dest src len).2 (dest + i) = m (src + i)) ∧
      ∀ a, ¬ InRange dest len a → (memmove m dest src len).2 a = m a := by
  have hholds := memmove_holds (holds_arrayOf m) hdest hsrc
  refine ⟨fun i hi => ?_, fun a ha => ?_⟩
  · have hlt : i.toNat < len.toNat := BitVec.lt_def.mp hi
    have hd : (dest + i).toNat = dest.toNat + i.toNat := BitVec.toNat_add_of_lt (by omega)
    have hs : (src + i).toNat = src.toNat + i.toNat := BitVec.toNat_add_of_lt (by omega)
    rw [hholds (dest + i), memmove_cell, if_pos (by omega), hd, Nat.add_sub_cancel_left, ← hs]
    exact (holds_arrayOf m (src + i)).symm
  · unfold InRange at ha
    rw [hholds a, memmove_cell, if_neg ha]
    exact (holds_arrayOf m a).symm

/-- Three bytes moved by one, up to the end of the address space. -/
theorem memmove_copies_top :
    (memmove (BitVec.truncate 8) (-3) (-4) 3).2 (-1) = BitVec.truncate 8 (-2 : Addr) :=
  (memmove_copies (BitVec.truncate 8) (-3) (-4) 3 (by decide) (by decide)).1 2 (by decide)

end OsdevX64.CLib.Flat
