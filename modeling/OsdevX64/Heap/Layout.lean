import OsdevX64.Heap.Containment

/-!
# How blocks are laid out

`malloc_align` has no free list and no header: a block begins at the bump
pointer, rounded up, and the pointer moves to the end of the block.  **As long as
the pointer does not pass the end of the address space, every block begins at the
least multiple of its alignment from the end of the previous block on, and no two
blocks meet** (`blocks_laid_out`).

The pointer is followed by the cursor of `Heap.Containment`, in natural numbers.
A block may end at `2 ^ 64`, where the pointer is 0 again; none begins there,
since `2 ^ 64` is not an address.
-/

namespace OsdevX64.Allocator

open Alignment GuardedRun

/-- No address is in both blocks. -/
def Block.Disjoint (b b' : Block) : Prop := ∀ a, ¬ (b.Covers a ∧ b'.Covers a)

/-- The allocator after `allocator_init` and the given calls. -/
def serveFrom (start size : BitVec 64) (requests : List Request) : Heap :=
  requests.foldl Heap.serve { p := allocatorInit start size, blocks := [] }

/-- The end of the previous block, or where the allocator started. -/
def Heap.endOf (start : BitVec 64) (h : Heap) : ℕ :=
  match h.blocks with
  | [] => start.toNat
  | b :: _ => b.ret.toNat + b.size.toNat

/-- Placed at the cursor, the request begins at an address and ends by the end
of the address space. -/
def InAddressSpace (c : ℕ) (r : Request) : Prop := place c r < 2 ^ 64 ∧ reach c r ≤ 2 ^ 64

instance (c : ℕ) (r : Request) : Decidable (InAddressSpace c r) :=
  inferInstanceAs (Decidable (_ ∧ _))

/-! ## The invariant -/

/-- **The blocks lie below the cursor**, apart from each other, and the newest
ends there. -/
structure LaidOut (start : BitVec 64) (h : Heap) (c : ℕ) : Prop where
  /-- The pointer is the cursor, and 0 at the end of the address space. -/
  bump : h.p.toNat = c % 2 ^ 64
  top : h.endOf start = c
  below : ∀ b ∈ h.blocks, b.ret.toNat + b.size.toNat ≤ c
  apart : h.blocks.Pairwise Block.Disjoint

theorem laidOut_init (start size : BitVec 64) :
    LaidOut start { p := allocatorInit start size, blocks := [] } start.toNat where
  bump := (Nat.mod_eq_of_lt start.isLt).symm
  top := rfl
  below := fun _ hb => absurd hb List.not_mem_nil
  apart := List.Pairwise.nil

theorem le_place (c : ℕ) (r : Request) : c ≤ place c r := le_roundUp (Nat.two_pow_pos _)

/-- Inside the address space a call returns the place of its request. -/
theorem LaidOut.ret_eq {start : BitVec 64} {h : Heap} {c : ℕ} (hlaid : LaidOut start h c)
    {r : Request} (hspace : InAddressSpace c r) : (r.call h.p).1.toNat = place c r := by
  have hc : c < 2 ^ 64 := (le_place c r).trans_lt hspace.1
  rw [call_ret, hlaid.bump, Nat.mod_eq_of_lt hc, Nat.mod_eq_of_lt hspace.1]

/-- A block from the cursor on meets none of the blocks below it. -/
theorem disjoint_of_le {b b' : Block} (h : b'.ret.toNat + b'.size.toNat ≤ b.ret.toNat) :
    b.Disjoint b' := by
  rintro a ⟨⟨hlow, -⟩, -, hhigh⟩
  exact absurd (hhigh.trans_le h) (Nat.not_lt.mpr hlow)

/-- A call keeps the layout and moves the cursor to the end of its block. -/
theorem LaidOut.serve {start : BitVec 64} {h : Heap} {c : ℕ} (hlaid : LaidOut start h c)
    {r : Request} (hspace : InAddressSpace c r) : LaidOut start (h.serve r) (reach c r) := by
  have hret := hlaid.ret_eq hspace
  have hle : c ≤ reach c r := (le_place c r).trans (Nat.le_add_right _ _)
  have hc : c < 2 ^ 64 := (le_place c r).trans_lt hspace.1
  refine ⟨?_, ?_, ?_, ?_⟩
  · have hsnd := call_snd h.p r
    rw [hlaid.bump, Nat.mod_eq_of_lt hc] at hsnd
    exact hsnd
  · change (r.call h.p).1.toNat + r.size.toNat = reach c r
    rw [hret, reach]
  · intro b hb
    rcases List.mem_cons.mp hb with rfl | hb
    · exact (congrArg (· + r.size.toNat) hret).le
    · exact (hlaid.below b hb).trans hle
  · refine List.pairwise_cons.mpr ⟨fun b hb => disjoint_of_le ?_, hlaid.apart⟩
    exact ((hlaid.below b hb).trans (le_place c r)).trans hret.ge

/-! ## Runs -/

/-- The layout after calls that stay in the address space. -/
theorem laidOut_serveFrom {start : BitVec 64} (size : BitVec 64) {requests : List Request}
    (hspace : Guarded reach InAddressSpace start.toNat requests) :
    LaidOut start (serveFrom start size requests) (requests.foldl reach start.toNat) :=
  hspace.foldl_rel (fun _ _ _ hlaid hr => hlaid.serve hr) (laidOut_init start size)

/-- **Every block is aligned, as low as possible, and apart from all others**, as
long as the bump pointer does not pass the end of the address space. -/
theorem blocks_laid_out (start size : BitVec 64) (requests : List Request)
    (hspace : Guarded reach InAddressSpace start.toNat requests) :
    (∀ pre r, pre ++ [r] <+: requests →
      IsLeast {a | 2 ^ r.exp ∣ a ∧ (serveFrom start size pre).endOf start ≤ a}
        (r.call (serveFrom start size pre).p).1.toNat) ∧
      (serveFrom start size requests).blocks.Pairwise Block.Disjoint := by
  refine ⟨?_, (laidOut_serveFrom size hspace).apart⟩
  rintro pre r ⟨rest, rfl⟩
  rw [List.append_assoc, guarded_append] at hspace
  obtain ⟨hpre, hr, -⟩ := hspace
  have hlaid := laidOut_serveFrom size hpre
  rw [hlaid.ret_eq hr, hlaid.top]
  exact roundUp_isLeast (Nat.two_pow_pos _) _

/-- Two calls from an odd address to the end of the address space. -/
theorem blocks_laid_out_high :
    (serveFrom 0xfffffffffffffff1 15 [.malloc 3, .mallocAlign 4 2]).blocks =
        [⟨0xfffffffffffffffc, 4⟩, ⟨0xfffffffffffffff8, 3⟩] ∧
      (serveFrom 0xfffffffffffffff1 15 [.malloc 3, .mallocAlign 4 2]).blocks.Pairwise
        Block.Disjoint :=
  ⟨by decide, (blocks_laid_out 0xfffffffffffffff1 15 [.malloc 3, .mallocAlign 4 2]
    (by decide)).2⟩

end OsdevX64.Allocator
