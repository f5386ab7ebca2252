import Mathlib.Data.List.Basic

/-!
# The memory map

`struct stivale2_struct_tag_memmap`: what the boot loader says about physical
memory.  The entries are the list the kernel loops over.
-/

namespace OsdevX64.Kernel

/-- `STIVALE2_MMAP_USABLE`. -/
def mmapUsable : BitVec 32 := 1

/-- `STIVALE2_MMAP_KERNEL_AND_MODULES`. -/
def mmapKernelAndModules : BitVec 32 := 0x1001

/-- `struct stivale2_mmap_entry`. -/
structure MmapEntry where
  base : BitVec 64
  length : BitVec 64
  type : BitVec 32
  deriving DecidableEq, Repr

/-- The addresses `[base, base + length)`. -/
def MmapEntry.Covers (e : MmapEntry) (a : ℕ) : Prop :=
  e.base.toNat ≤ a ∧ a < e.base.toNat + e.length.toNat

/-- No address is in both entries. -/
def MmapEntry.Disjoint (e f : MmapEntry) : Prop := ∀ a, ¬ (e.Covers a ∧ f.Covers a)

instance : Std.Symm MmapEntry.Disjoint := ⟨fun _ _ h a ha => h a ⟨ha.2, ha.1⟩⟩

end OsdevX64.Kernel
