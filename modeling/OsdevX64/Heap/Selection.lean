import OsdevX64.Heap.Allocator
import OsdevX64.Lib.FirstMaximum

/-!
# Which region `pmm_init` selects

The loop keeps the first of the longest usable entries (`largestUsable_eq`), whatever its
base, and the base is tested only behind the loop.  Where it is 0 the allocator is not
initialised, although other usable entries may be there.

So **an entry that is longest among the usable ones with a base is handed to
`allocator_init` exactly if every usable entry at address 0 has a longer one in the map,
or one as long before it** (`region_selected_iff`).  Otherwise `p` stays null.
-/

namespace OsdevX64.Allocator

open Kernel FirstMaximum

/-- A usable entry. -/
def Usable (e : MmapEntry) : Prop := e.type = mmapUsable

/-- How long an entry is. -/
def extent (e : MmapEntry) : ℕ := e.length.toNat

/-- A usable entry that is not empty: one that the loop may select. -/
def Eligible (e : MmapEntry) : Prop := Usable e ∧ 0 < extent e

instance (e : MmapEntry) : Decidable (Usable e) := inferInstanceAs (Decidable (_ = _))

instance (e : MmapEntry) : Decidable (Eligible e) := inferInstanceAs (Decidable (_ ∧ _))

/-- The arguments of the call of `allocator_init` in `pmm_init`, if there is one. -/
def allocatorInitCall (memmap : List MmapEntry) : Option (BitVec 64 × BitVec 64) :=
  let s := largestUsable memmap
  if s.start ≠ 0 then some (s.start, s.largest) else none

theorem pmmInit_eq (memmap : List MmapEntry) (p : BitVec 64) :
    pmmInit memmap p = (allocatorInitCall memmap).elim p fun args =>
      allocatorInit args.1 args.2 := by
  unfold pmmInit allocatorInitCall
  dsimp only
  split_ifs <;> rfl

/-- A usable entry with a base, and none of them is longer. -/
structure LongestBased (memmap : List MmapEntry) (e : MmapEntry) : Prop where
  mem : e ∈ memmap
  usable : Usable e
  base : e.base ≠ 0
  longest : ∀ f ∈ memmap, Usable f → f.base ≠ 0 → extent f ≤ extent e

/-- Every usable entry at address 0 has a usable one before it that is at least as long, or
one behind it that is longer. -/
def ZeroYields (memmap : List MmapEntry) : Prop :=
  ∀ before e after, memmap = before ++ e :: after → Usable e → e.base = 0 →
    (∃ f ∈ before, Usable f ∧ extent e ≤ extent f) ∨ ∃ f ∈ after, Usable f ∧ extent e < extent f

/-- A longer usable entry anywhere in the map is enough. -/
theorem ZeroYields.of_longer {memmap : List MmapEntry}
    (h : ∀ e ∈ memmap, e.base = 0 → ∃ f ∈ memmap, Usable f ∧ extent e < extent f) :
    ZeroYields memmap := by
  rintro before e after rfl _ hzero
  obtain ⟨f, hf, husable, hlt⟩ := h e (List.mem_append_right before List.mem_cons_self) hzero
  rcases List.mem_append.mp hf with hf | hf
  · exact Or.inl ⟨f, hf, husable, hlt.le⟩
  · rcases List.mem_cons.mp hf with rfl | hf
    · exact absurd hlt (Nat.lt_irrefl _)
    · exact Or.inr ⟨f, hf, husable, hlt⟩

/-! ## The loop -/

/-- What the loop has selected. -/
def Selection.of (best : Option MmapEntry) : Selection :=
  best.elim ⟨0, 0⟩ fun e => ⟨e.length, e.base⟩

/-- **The loop selects the first of the longest usable entries.** -/
theorem largestUsable_eq (memmap : List MmapEntry) :
    largestUsable memmap = Selection.of ((memmap.filter Eligible).argmax extent) := by
  induction memmap using List.reverseRecOn with
  | nil => rfl
  | append_singleton memmap cur ih =>
      have hstep : largestUsable (memmap ++ [cur]) = select (largestUsable memmap) cur := by
        rw [largestUsable, List.foldl_append]
        rfl
      rw [hstep, ih, List.filter_append]
      by_cases hcur : Eligible cur
      · rw [List.filter_cons_of_pos (by simpa using hcur), List.filter_nil, List.argmax_concat]
        cases (memmap.filter Eligible).argmax extent with
        | none => exact if_pos hcur
        | some best =>
            dsimp only
            split_ifs with hlonger
            · exact if_pos ⟨hcur.1, hlonger⟩
            · exact if_neg fun h => hlonger h.2
      · rw [List.filter_cons_of_neg (by simpa using hcur), List.filter_nil, List.append_nil]
        refine if_neg fun h => hcur ⟨h.1, ?_⟩
        exact Nat.zero_lt_of_lt h.2

/-- A map with a usable entry that is not empty has a first longest one, and the loop takes
it. -/
theorem exists_firstMax {memmap : List MmapEntry} (h : ∃ e ∈ memmap, Eligible e) :
    ∃ e, FirstMax Eligible extent memmap e ∧ largestUsable memmap = ⟨e.length, e.base⟩ := by
  rw [largestUsable_eq]
  cases hbest : (memmap.filter Eligible).argmax extent with
  | none =>
      obtain ⟨e, hmem, he⟩ := h
      have hfilter := List.argmax_eq_none.mp hbest
      exact absurd (hfilter ▸ List.mem_filter.mpr ⟨hmem, decide_eq_true he⟩) List.not_mem_nil
  | some e => exact ⟨e, (mem_argmax_filter_iff memmap e).mp hbest, rfl⟩

/-- The first of the longest has a base exactly if every usable entry at 0 yields. -/
theorem firstMax_base_iff {memmap : List MmapEntry} {e : MmapEntry}
    (he : FirstMax Eligible extent memmap e) : e.base ≠ 0 ↔ ZeroYields memmap := by
  constructor
  · intro hbase before zero after hsplit husable hzero
    by_contra hyields
    obtain ⟨hbefore, hafter⟩ := not_or.mp hyields
    have hbefore' : ∀ f ∈ before, Eligible f → extent f < extent zero := fun f hf hf' =>
      lt_of_not_ge fun hle => hbefore ⟨f, hf, hf'.1, hle⟩
    have hafter' : ∀ f ∈ after, Eligible f → extent f ≤ extent zero := fun f hf hf' =>
      le_of_not_gt fun hlt => hafter ⟨f, hf, hf'.1, hlt⟩
    -- the entry at 0 is not `e`, so it is not empty
    have hlength : 0 < extent zero := by
      obtain ⟨-, -, -, heligible, -⟩ := id he
      have hmem := he.mem
      rw [hsplit] at hmem
      rcases List.mem_append.mp hmem with hmem | hmem
      · exact Nat.zero_lt_of_lt (hbefore' e hmem heligible)
      · rcases List.mem_cons.mp hmem with rfl | hmem
        · exact absurd hzero hbase
        · exact heligible.2.trans_le (hafter' e hmem heligible)
    have hfirst : FirstMax Eligible extent memmap zero :=
      ⟨before, after, hsplit, ⟨husable, hlength⟩, hbefore', hafter'⟩
    exact hbase (he.unique hfirst ▸ hzero)
  · intro hyields hzero
    obtain ⟨before, after, hsplit, heligible, hbefore, hafter⟩ := he
    rcases hyields before e after hsplit heligible.1 hzero with ⟨f, hf, husable, hle⟩ |
      ⟨f, hf, husable, hlt⟩
    · have hlength : 0 < extent f := heligible.2.trans_le hle
      exact absurd hle (Nat.not_le_of_lt (hbefore f hf ⟨husable, hlength⟩))
    · have hlength : 0 < extent f := Nat.zero_lt_of_lt hlt
      exact absurd hlt (Nat.not_lt_of_le (hafter f hf ⟨husable, hlength⟩))

/-- **When the longest region is selected.**  In a map with a usable entry that is neither
empty nor at address 0, `pmm_init` hands the base and the length of a longest such entry to
`allocator_init` exactly if every usable entry at address 0 yields, and then only is `p` not
null. -/
theorem region_selected_iff (memmap : List MmapEntry)
    (h : ∃ e ∈ memmap, Usable e ∧ e.length ≠ 0 ∧ e.base ≠ 0) :
    ((∃ e, LongestBased memmap e ∧ allocatorInitCall memmap = some (e.base, e.length)) ↔
      ZeroYields memmap) ∧ (pmmInit memmap 0 ≠ 0 ↔ ZeroYields memmap) := by
  obtain ⟨based, hbased, husable, hlength, -⟩ := h
  have hpos : 0 < extent based :=
    Nat.pos_of_ne_zero fun hzero => hlength (BitVec.eq_of_toNat_eq hzero)
  obtain ⟨e, he, hselect⟩ := exists_firstMax ⟨based, hbased, husable, hpos⟩
  have hyields := firstMax_base_iff he
  have hcall : allocatorInitCall memmap = if e.base ≠ 0 then some (e.base, e.length) else none := by
    unfold allocatorInitCall
    rw [hselect]
  refine ⟨⟨?_, fun hz => ?_⟩, ?_⟩
  · rintro ⟨f, -, hf⟩
    refine hyields.mp fun hzero => ?_
    rw [hcall, if_neg (not_not_intro hzero)] at hf
    exact absurd hf.symm (Option.some_ne_none _)
  · have hbase := hyields.mpr hz
    refine ⟨e, ⟨he.mem, ?_, hbase, fun f hf hf' _ => ?_⟩, by rw [hcall, if_pos hbase]⟩
    · obtain ⟨-, -, -, heligible, -⟩ := he
      exact heligible.1
    · rcases Nat.eq_zero_or_pos (extent f) with hempty | hpos
      · rw [hempty]
        exact Nat.zero_le _
      · exact he.le hf ⟨hf', hpos⟩
  · rw [pmmInit_eq, hcall, ← hyields]
    by_cases hbase : e.base = 0
    · rw [if_neg (not_not_intro hbase)]
      exact iff_of_false (not_not_intro rfl) (not_not_intro hbase)
    · rw [if_pos hbase]
      exact Iff.rfl

/-- Low memory, and a longer region above it. -/
theorem region_selected_above :
    let memmap : List MmapEntry := [⟨0, 0x9FC00, mmapUsable⟩, ⟨0x100000, 0x7EE0000, mmapUsable⟩]
    pmmInit memmap 0 ≠ 0 ∧
      ∃ e, LongestBased memmap e ∧ allocatorInitCall memmap = some (e.base, e.length) := by
  intro memmap
  have hlong : (⟨0x100000, 0x7EE0000, mmapUsable⟩ : MmapEntry) ∈ memmap :=
    List.mem_cons_of_mem _ List.mem_cons_self
  have hyields : ZeroYields memmap := by
    refine ZeroYields.of_longer fun e he hzero => ⟨_, hlong, rfl, ?_⟩
    rcases List.mem_cons.mp he with rfl | he
    · decide
    · rw [List.mem_singleton.mp he] at hzero
      exact absurd hzero (by decide)
  have hsome : ∃ e ∈ memmap, Usable e ∧ e.length ≠ 0 ∧ e.base ≠ 0 :=
    ⟨_, hlong, rfl, by decide, by decide⟩
  obtain ⟨hselected, hinit⟩ := region_selected_iff memmap hsome
  exact ⟨hinit.mpr hyields, hselected.mpr hyields⟩

/-- **Long low memory keeps the allocator from being initialised**, with a usable region above
it: `p` stays null. -/
theorem low_memory_selected :
    let memmap : List MmapEntry := [⟨0, 0x9FC00, mmapUsable⟩, ⟨0x100000, 0x10000, mmapUsable⟩]
    allocatorInitCall memmap = none ∧ pmmInit memmap 0 = 0 ∧
      (malloc (pmmInit memmap 0) 16).1 = 0 ∧
      LongestBased memmap ⟨0x100000, 0x10000, mmapUsable⟩ := by
  intro memmap
  refine ⟨by decide, by decide, by decide, ?_, rfl, by decide, ?_⟩
  · exact List.mem_cons_of_mem _ List.mem_cons_self
  · intro f hf _ hbase
    rcases List.mem_cons.mp hf with rfl | hf
    · exact absurd rfl hbase
    · rw [List.mem_singleton.mp hf]

end OsdevX64.Allocator
