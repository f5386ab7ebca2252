import OsdevX64.Heap.Allocator
import OsdevX64.Lib.Alignment
import OsdevX64.Lib.GuardedRun
import Mathlib.Data.List.Pairwise

/-!
# When the heap stays in its region

`malloc_align` never compares `p` with the end of the region, so containment is
a matter of what is asked for.  The reference is a cursor in natural numbers
that is rounded up and moved by the size of each request; **the blocks are
contained exactly when every request, placed at the cursor, fits**
(`blocks_contained_iff`).

Address 0 is what a failed call would return.  The code returns it only where
rounding carries `p` to the end of the address space, and the cursor starts
again from there.  In a region of physical memory this cannot happen, and the
condition is that the sizes and the gaps of the alignments add up to no more
than the length of the region.
-/

namespace OsdevX64.Allocator

open Alignment GuardedRun Kernel

/-- The addresses `[ret, ret + size)`. -/
def Block.Covers (b : Block) (a : ℕ) : Prop :=
  b.ret.toNat ≤ a ∧ a < b.ret.toNat + b.size.toNat

/-- The call failed, or its block is in the region and outside every entry of
another type. -/
def Block.Contained (memmap : List MmapEntry) (region : MmapEntry) (b : Block) : Prop :=
  b.ret = 0 ∨ (∀ a, b.Covers a → region.Covers a) ∧
    ∀ e ∈ memmap, e.type ≠ mmapUsable → ∀ a, ¬ (b.Covers a ∧ e.Covers a)

/-- All blocks are contained. -/
def Heap.Contained (memmap : List MmapEntry) (region : MmapEntry) (h : Heap) : Prop :=
  ∀ b ∈ h.blocks, b.Contained memmap region

/-! ## The reference -/

/-- Where a request is placed: the cursor, rounded up. -/
def place (c : ℕ) (r : Request) : ℕ := roundUp c (2 ^ r.exp)

/-- The cursor after a request. -/
def advance (c : ℕ) (r : Request) : ℕ := (place c r + r.size.toNat) % 2 ^ 64

/-- The request asks for nothing, or its place is taken for a failure, or it
lies in the region. -/
def Fits (region : MmapEntry) (c : ℕ) (r : Request) : Prop :=
  r.size.toNat = 0 ∨ place c r % 2 ^ 64 = 0 ∨
    region.base.toNat ≤ place c r ∧
      place c r + r.size.toNat ≤ region.base.toNat + region.length.toNat

/-- The end of a request, in natural numbers. -/
def reach (c : ℕ) (r : Request) : ℕ := place c r + r.size.toNat

/-- The request asks for nothing or ends with the region. -/
def EndsBy (region : MmapEntry) (c : ℕ) (r : Request) : Prop :=
  r.size.toNat = 0 ∨ reach c r ≤ region.base.toNat + region.length.toNat

instance (region : MmapEntry) (c : ℕ) (r : Request) : Decidable (Fits region c r) :=
  inferInstanceAs (Decidable (_ ∨ _ ∨ _))

instance (region : MmapEntry) (c : ℕ) (r : Request) : Decidable (EndsBy region c r) :=
  inferInstanceAs (Decidable (_ ∨ _))

/-! ## `pmm_init` -/

/-- The selection is empty or a usable entry of the map. -/
theorem largestUsable_mem (memmap : List MmapEntry) :
    largestUsable memmap = ⟨0, 0⟩ ∨ ∃ region ∈ memmap, region.type = mmapUsable ∧
      largestUsable memmap = ⟨region.length, region.base⟩ := by
  unfold largestUsable
  refine List.foldlRecOn (motive := fun (s : Selection) => s = ⟨0, 0⟩ ∨ ∃ region ∈ memmap,
    region.type = mmapUsable ∧ s = ⟨region.length, region.base⟩) _ _ (Or.inl rfl) ?_
  intro s hs cur hcur
  unfold select
  split_ifs with hlarger
  · exact Or.inr ⟨cur, hcur, hlarger.1, rfl⟩
  · exact hs

/-! ## One call -/

theorem exp_lt (r : Request) : r.exp < 64 := by
  cases r with
  | malloc size => exact (by decide : 3 < 64)
  | mallocAlign size exp => exact exp.isLt

theorem call_eq (p : BitVec 64) (r : Request) :
    r.call p = mallocAlign p r.size (BitVec.twoPow 64 r.exp) := by
  cases r with
  | malloc size => rfl
  | mallocAlign size exp => rfl

/-- `malloc_align` returns its cursor, rounded up. -/
theorem mallocAlign_ret (p size : BitVec 64) {k : ℕ} (hk : k < 64) :
    (mallocAlign p size (BitVec.twoPow 64 k)).1.toNat = roundUp p.toNat (2 ^ k) % 2 ^ 64 := by
  have hpos : 0 < 2 ^ k := Nat.two_pow_pos k
  have hmask := toNat_and_twoPow_sub_one p hk
  have halign : (BitVec.twoPow 64 k).toNat = 2 ^ k := by
    rw [BitVec.toNat_twoPow, Nat.mod_eq_of_lt (Nat.pow_lt_pow_right Nat.one_lt_two hk)]
  have hp := p.isLt
  unfold mallocAlign
  dsimp only
  split_ifs with hzero
  · have hmod : p.toNat % 2 ^ k = 0 := by rw [← hmask, hzero]; rfl
    rw [roundUp_of_mod_eq_zero hpos hmod, Nat.mod_eq_of_lt hp]
  · have hmod : p.toNat % 2 ^ k ≠ 0 := by
      rw [← hmask]
      exact fun h => hzero (BitVec.eq_of_toNat_eq h)
    have hlt := Nat.mod_lt p.toNat hpos
    -- the sum may wrap before the remainder is taken off; modulo `2 ^ 64` it does not matter
    rw [roundUp_of_mod_ne_zero hpos hmod, BitVec.toNat_sub, BitVec.toNat_add, halign, hmask]
    generalize p.toNat % 2 ^ k = m at hlt
    have hpow : 2 ^ k < 2 ^ 64 := Nat.pow_lt_pow_right Nat.one_lt_two hk
    generalize 2 ^ k = a at hlt hpow
    omega

theorem mallocAlign_snd (p size align : BitVec 64) :
    (mallocAlign p size align).2 = (mallocAlign p size align).1 + size := by
  unfold mallocAlign
  dsimp only
  split_ifs <;> rfl

theorem call_ret (p : BitVec 64) (r : Request) :
    (r.call p).1.toNat = place p.toNat r % 2 ^ 64 := by
  rw [call_eq, mallocAlign_ret p r.size (exp_lt r), place]

/-- A call moves `p` as the reference moves its cursor. -/
theorem call_snd (p : BitVec 64) (r : Request) : (r.call p).2.toNat = advance p.toNat r := by
  have hsnd : (r.call p).2 = (r.call p).1 + r.size := by
    rw [call_eq, mallocAlign_snd]
  rw [hsnd, BitVec.toNat_add, call_ret, advance, Nat.mod_add_mod]

/-! ## Containment of one block -/

/-- In a map of disjoint entries a block inside the region meets no other entry. -/
theorem contained_of_inside {memmap : List MmapEntry} (hdisj : memmap.Pairwise MmapEntry.Disjoint)
    {region : MmapEntry} (hregion : region ∈ memmap) (htype : region.type = mmapUsable) {b : Block}
    (hinside : ∀ a, b.Covers a → region.Covers a) : b.Contained memmap region := by
  refine Or.inr ⟨hinside, ?_⟩
  intro e he hother a ⟨hb, hcovers⟩
  have hne : region ≠ e := fun heq => hother (heq ▸ htype)
  have hapart := hdisj.forall hregion he hne
  exact hapart a ⟨hinside a hb, hcovers⟩

/-- **A block is contained exactly when its request fits.** -/
theorem contained_iff_fits {memmap : List MmapEntry} (hdisj : memmap.Pairwise MmapEntry.Disjoint)
    {region : MmapEntry} (hregion : region ∈ memmap) (htype : region.type = mmapUsable)
    (p : BitVec 64) (r : Request) :
    (Block.mk (r.call p).1 r.size).Contained memmap region ↔ Fits region p.toNat r := by
  have hret := call_ret p r
  generalize (r.call p).1 = ret at hret
  have hnull : ret = 0 ↔ place p.toNat r % 2 ^ 64 = 0 := by
    rw [← hret]
    exact ⟨fun h => h ▸ rfl, fun h => BitVec.eq_of_toNat_eq h⟩
  have hplace : ret ≠ 0 → ret.toNat = place p.toNat r := by
    intro hne
    have hle : place p.toNat r ≤ 2 ^ 64 :=
      roundUp_le (Nat.two_pow_pos _) (Nat.pow_dvd_pow 2 (exp_lt r).le) p.isLt.le
    have hlt : place p.toNat r ≠ 2 ^ 64 := fun heq => hne (hnull.mpr (by rw [heq, Nat.mod_self]))
    rw [hret, Nat.mod_eq_of_lt (lt_of_le_of_ne hle hlt)]
  constructor
  · rintro (hzero | ⟨hinside, _⟩)
    · exact Or.inr (Or.inl (hnull.mp hzero))
    · by_cases hne : ret = 0
      · exact Or.inr (Or.inl (hnull.mp hne))
      · rcases Nat.eq_zero_or_pos r.size.toNat with hsize | hsize
        · exact Or.inl hsize
        · rw [Fits, ← hplace hne]
          -- a block that is not empty has a first and a last address
          have hfirst := hinside ret.toNat ⟨Nat.le_refl _, Nat.lt_add_of_pos_right hsize⟩
          have hlast := hinside (ret.toNat + r.size.toNat - 1)
            ⟨Nat.le_sub_one_of_lt (Nat.lt_add_of_pos_right hsize), Nat.sub_one_lt (by omega)⟩
          exact Or.inr (Or.inr ⟨hfirst.1, by have := hlast.2; omega⟩)
  · intro hfits
    by_cases hne : ret = 0
    · exact Or.inl hne
    · refine contained_of_inside hdisj hregion htype fun a ⟨hlow, hhigh⟩ => ?_
      dsimp only at hlow hhigh
      rcases hfits with hsize | hzero | ⟨hbase, hend⟩
      · omega
      · exact absurd (hnull.mpr hzero) hne
      · rw [← hplace hne] at hbase hend
        exact ⟨hbase.trans hlow, hhigh.trans_le hend⟩

/-! ## Runs -/

/-- What a call of the allocator satisfies. -/
theorem serve_guardedBy {memmap : List MmapEntry} (hdisj : memmap.Pairwise MmapEntry.Disjoint)
    {region : MmapEntry} (hregion : region ∈ memmap) (htype : region.type = mmapUsable) :
    GuardedBy (fun h r => some (Heap.serve h r)) (Heap.Contained memmap region) advance
      (Fits region) (fun h c => h.p.toNat = c) where
  total := fun h r => ⟨h.serve r, rfl⟩
  stays_bad := by
    rintro h r _ ⟨⟩ hgood b hb
    exact hgood b (List.mem_cons_of_mem _ hb)
  keeps := by
    rintro h c r _ rfl hgood hfits ⟨⟩
    refine ⟨?_, call_snd h.p r⟩
    intro b hb
    rcases List.mem_cons.mp hb with rfl | hb
    · exact (contained_iff_fits hdisj hregion htype h.p r).mpr hfits
    · exact hgood b hb
  breaks := by
    rintro h c r _ rfl _ hfits ⟨⟩ hgood
    exact hfits ((contained_iff_fits hdisj hregion htype h.p r).mp (hgood _ List.mem_cons_self))

/-- In a region of physical memory the cursor never reaches the end of the
address space. -/
theorem guarded_fits_iff_endsBy {region : MmapEntry} (hbase : region.base ≠ 0)
    (hphys : region.base.toNat + region.length.toNat ≤ 2 ^ 63) (requests : List Request) :
    Guarded advance (Fits region) region.base.toNat requests ↔
      Guarded reach (EndsBy region) region.base.toNat requests := by
  have hpos : 0 < region.base.toNat :=
    Nat.pos_of_ne_zero fun h => hbase (BitVec.eq_of_toNat_eq h)
  -- `2 ^ 63` is a multiple of every alignment, so rounding stops there
  have hplace : ∀ (c : ℕ) (r : Request), region.base.toNat ≤ c ∧ c ≤ 2 ^ 63 →
      region.base.toNat ≤ place c r ∧ place c r ≤ 2 ^ 63 := by
    intro c r hc
    have halign : 2 ^ r.exp ∣ 2 ^ 63 := Nat.pow_dvd_pow 2 (Nat.le_of_lt_succ (exp_lt r))
    exact ⟨hc.1.trans (le_roundUp (Nat.two_pow_pos _)), roundUp_le (Nat.two_pow_pos _) halign hc.2⟩
  refine guarded_congr (fun c => region.base.toNat ≤ c ∧ c ≤ 2 ^ 63) ?_ ?_
    ⟨Nat.le_refl _, (Nat.le_add_right _ _).trans hphys⟩ requests
  · intro c r hc
    obtain ⟨hlow, hhigh⟩ := hplace c r hc
    unfold Fits EndsBy reach
    rw [Nat.mod_eq_of_lt (by omega : place c r < 2 ^ 64)]
    omega
  · intro c r hc hends
    obtain ⟨hlow, hhigh⟩ := hplace c r hc
    have hreach : reach c r ≤ 2 ^ 63 := by
      rcases hends with hsize | hends
      · unfold reach
        omega
      · exact hends.trans hphys
    unfold advance
    unfold reach at hreach ⊢
    exact ⟨Nat.mod_eq_of_lt (by omega), by omega, hreach⟩

/-- **The heap is contained exactly when every request fits**: placed at the
cursor, it ends with the region that `pmm_init` selected.  In physical memory
the cursor is the sum of the sizes and gaps. -/
theorem blocks_contained_iff (memmap : List MmapEntry)
    (hdisj : memmap.Pairwise MmapEntry.Disjoint) (hinit : (largestUsable memmap).start ≠ 0)
    (p : BitVec 64) (requests : List Request) :
    ∃ region ∈ memmap, region.type = mmapUsable ∧
      largestUsable memmap = ⟨region.length, region.base⟩ ∧
      ((serveAll memmap p requests).Contained memmap region ↔
        Guarded advance (Fits region) region.base.toNat requests) ∧
      (region.base.toNat + region.length.toNat ≤ 2 ^ 63 →
        ((serveAll memmap p requests).Contained memmap region ↔
          Guarded reach (EndsBy region) region.base.toNat requests)) := by
  rcases largestUsable_mem memmap with hnone | ⟨region, hregion, htype, hselect⟩
  · exact absurd (congrArg Selection.start hnone) hinit
  · have hbase : region.base ≠ 0 := by
      rw [hselect] at hinit
      exact hinit
    have hp : pmmInit memmap p = region.base := by
      unfold pmmInit
      dsimp only
      rw [if_pos hinit, hselect]
      rfl
    have hrun : requests.foldlM (fun h r => some (Heap.serve h r)) ⟨region.base, []⟩ =
        some (serveAll memmap p requests) := by
      rw [serveAll, hp]
      exact List.foldlM_pure
    have hiff := ((serve_guardedBy hdisj hregion htype).good_iff rfl
      (fun b hb => absurd hb List.not_mem_nil) hrun).1
    exact ⟨region, hregion, htype, hselect, hiff,
      fun hphys => hiff.trans (guarded_fits_iff_endsBy hbase hphys requests)⟩

/-- Sixteen usable bytes below the modules. -/
def smallMap : List MmapEntry :=
  [⟨0x1000, 16, mmapUsable⟩, ⟨0x1010, 0x1000, mmapKernelAndModules⟩]

theorem smallMap_disjoint : smallMap.Pairwise MmapEntry.Disjoint := by
  refine List.pairwise_cons.mpr ⟨?_, List.pairwise_singleton _ _⟩
  intro e he a ⟨hlow, hhigh⟩
  rw [List.mem_singleton.mp he] at hhigh
  exact absurd hlow.2 (Nat.not_lt.mpr hhigh.1)

/-- Two requests that fit into sixteen bytes. -/
theorem small_requests_contained : ∃ region ∈ smallMap, region.type = mmapUsable ∧
    (serveAll smallMap 0 [.malloc 5, .mallocAlign 8 2]).Contained smallMap region := by
  obtain ⟨region, hregion, htype, hselect, hiff, -⟩ :=
    blocks_contained_iff smallMap smallMap_disjoint (by decide) 0 [.malloc 5, .mallocAlign 8 2]
  refine ⟨region, hregion, htype, hiff.mpr ?_⟩
  -- the selection determines the region, so the guards can be computed
  obtain ⟨base, length, type⟩ := region
  obtain ⟨rfl, rfl⟩ := Selection.mk.inj hselect
  cases (htype : type = mmapUsable)
  decide

/-- **`malloc` overruns the region**: 32 bytes of the sixteen are handed out, and
the second half of them is the modules'. -/
theorem malloc_overruns_region :
    smallMap.Pairwise MmapEntry.Disjoint ∧ largestUsable smallMap = ⟨16, 0x1000⟩ ∧
      (serveAll smallMap 0 [.malloc 32]).blocks = [⟨0x1000, 32⟩] ∧
      (Block.mk 0x1000 32).Covers 0x1010 ∧
      (MmapEntry.mk 0x1010 0x1000 mmapKernelAndModules).Covers 0x1010 ∧
      ¬ (serveAll smallMap 0 [.malloc 32]).Contained smallMap ⟨0x1000, 16, mmapUsable⟩ := by
  have hblock : (Block.mk 0x1000 32).Covers 0x1010 := ⟨by decide, by decide⟩
  have hblocks : (serveAll smallMap 0 [.malloc 32]).blocks = [⟨0x1000, 32⟩] := by decide
  refine ⟨smallMap_disjoint, by decide, hblocks, hblock, ⟨by decide, by decide⟩, ?_⟩
  intro hcontained
  rcases hcontained ⟨0x1000, 32⟩ (hblocks ▸ List.mem_cons_self) with hzero | ⟨hinside, -⟩
  · exact absurd hzero (by decide)
  · exact absurd (hinside 0x1010 hblock).2 (by decide)

end OsdevX64.Allocator
