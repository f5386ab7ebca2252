import OsdevX64.Kernel.MemoryMap

/-!
# The allocator

`kernel/stdlib.c` and `pmm_init` of `kernel/cpu.c`.  The allocator is the
pointer `p`: **no bound is kept beside it**, since `allocator_init` drops the
length of the region it is given.  The blocks handed out are recorded, newest
first.
-/

namespace OsdevX64.Allocator

open Kernel

/-! ## `pmm_init` -/

/-- The local variables `largest` and `start` of `pmm_init`. -/
structure Selection where
  largest : BitVec 64
  start : BitVec 64
  deriving DecidableEq, Repr

/-- The body of the loop of `pmm_init`. -/
def select (s : Selection) (cur : MmapEntry) : Selection :=
  -- a longer region is taken whatever its base
  if cur.type = mmapUsable ∧ s.largest < cur.length then
    { largest := cur.length, start := cur.base }
  else s

/-- The loop of `pmm_init`. -/
def largestUsable (memmap : List MmapEntry) : Selection :=
  memmap.foldl select { largest := 0, start := 0 }

/-- `allocator_init`: the new `p`. -/
def allocatorInit (start _size : BitVec 64) : BitVec 64 := start

/-- `pmm_init`: the new `p`. -/
def pmmInit (memmap : List MmapEntry) (p : BitVec 64) : BitVec 64 :=
  let s := largestUsable memmap
  if s.start ≠ 0 then allocatorInit s.start s.largest else p

/-! ## `malloc` -/

/-- `malloc_align`: the pointer returned and the new `p`. -/
def mallocAlign (p size align : BitVec 64) : BitVec 64 × BitVec 64 :=
  let n := p
  let remainder := n &&& (align - 1)
  if remainder = 0 then
    let ret := n
    (ret, ret + size)
  else
    let ret := n + align - remainder
    (ret, ret + size)

/-- `malloc`. -/
def malloc (p size : BitVec 64) : BitVec 64 × BitVec 64 := mallocAlign p size 8

/-- A call; the alignment of `malloc_align` is `2 ^ exp`. -/
inductive Request
  | malloc (size : BitVec 64)
  | mallocAlign (size : BitVec 64) (exp : Fin 64)
  deriving DecidableEq, Repr

/-- The bytes a call asks for. -/
def Request.size : Request → BitVec 64
  | .malloc size => size
  | .mallocAlign size _ => size

/-- The exponent of the alignment of a call. -/
def Request.exp : Request → ℕ
  | .malloc _ => 3
  | .mallocAlign _ exp => exp

/-- What a call does. -/
def Request.call (p : BitVec 64) : Request → BitVec 64 × BitVec 64
  | .malloc size => Allocator.malloc p size
  | .mallocAlign size exp => Allocator.mallocAlign p size (BitVec.twoPow 64 exp)

/-- A block that was returned. -/
structure Block where
  ret : BitVec 64
  size : BitVec 64
  deriving DecidableEq, Repr

/-- The allocator and the blocks it returned. -/
structure Heap where
  p : BitVec 64
  blocks : List Block
  deriving DecidableEq, Repr

/-- One call. -/
def Heap.serve (h : Heap) (r : Request) : Heap :=
  let (ret, p) := r.call h.p
  { p := p, blocks := { ret := ret, size := r.size } :: h.blocks }

/-- The allocator after `pmm_init` and the given calls. -/
def serveAll (memmap : List MmapEntry) (p : BitVec 64) (requests : List Request) : Heap :=
  requests.foldl Heap.serve { p := pmmInit memmap p, blocks := [] }

end OsdevX64.Allocator
