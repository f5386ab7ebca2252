import OsdevX64.Console.Pixels
import OsdevX64.Heap.Allocator
import OsdevX64.Lib.Chain
import OsdevX64.Loader.ModuleHeader

/-!
# The boot information

The boot loader hands `kmain` a `struct stivale2_struct`, from which a list of tags leads
through memory.  `stivale2_get_tag` follows it; `pmm_init`, `graphics_init` and the loops
over the memory map read the tags they ask for.  A tag that is not there is the null
pointer, and is read like any other.

`start` is `kmain` up to `terminal_init`, on memory as the kernel sees it: the boot loader
hands over pointers into the higher half, while the memory map counts physical addresses
(`Mapping`).

* **`stivale2_get_tag` returns the first tag with the identifier, or NULL at the end of
  the list**, and nothing if neither is reached (`get_tag_iff`).
-/

namespace OsdevX64.Boot

open ByteMemory Kernel Loader Console MachineInt Chain

/-- `STIVALE2_STRUCT_TAG_MEMMAP_ID`. -/
def memmapId : BitVec 64 := 0x2187F79E8612DE07

/-- `STIVALE2_STRUCT_TAG_FRAMEBUFFER_ID`. -/
def framebufferId : BitVec 64 := 0x506461D2950408FA

/-! ## Memory -/

/-- What the kernel runs on: its pages, and what of physical memory is its own. -/
structure Mapping where
  /-- The physical address behind a virtual one. -/
  translate : BitVec 64 → BitVec 64
  /-- The bytes of the kernel's variables and of its stack. -/
  own : BitVec 64 → Bool

/-- Physical memory as the kernel sees it. -/
def Mapping.view (v : Mapping) (ram : Mem) : Mem := fun a => ram (v.translate a)

/-! ## Tags -/

/-- `s->tags`. -/
def structTags (mem : Mem) (s : BitVec 64) : BitVec 64 := load64 mem (fieldAddr s 128)

/-- `identifier` of a tag. -/
def identifier (mem : Mem) (tag : BitVec 64) : BitVec 64 := load64 mem (fieldAddr tag 0)

/-- `next` of a tag. -/
def nextTag (mem : Mem) (tag : BitVec 64) : BitVec 64 := load64 mem (fieldAddr tag 8)

/-- The loop of `stivale2_get_tag`, if it ends within `fuel` turns. -/
def getTagLoop (mem : Mem) (id : BitVec 64) : ℕ → BitVec 64 → Option (BitVec 64)
  | 0, _ => none
  | fuel + 1, currentTag =>
      if currentTag ≠ 0 then
        if identifier mem currentTag = id then some currentTag
        else getTagLoop mem id fuel (nextTag mem currentTag)
      else some 0

/-- `stivale2_get_tag`. -/
def stivale2GetTag (mem : Mem) (s id : BitVec 64) (fuel : ℕ) : Option (BitVec 64) :=
  getTagLoop mem id fuel (structTags mem s)

/-- The tag that ends the search. -/
def endsSearch (mem : Mem) (id tag : BitVec 64) : Bool := tag = 0 ∨ identifier mem tag = id

theorem getTagLoop_eq (mem : Mem) (id : BitVec 64) (fuel : ℕ) (tag : BitVec 64) :
    getTagLoop mem id fuel tag = walk (nextTag mem) (endsSearch mem id) fuel tag := by
  induction fuel generalizing tag with
  | zero => rfl
  | succ fuel ih =>
      rw [getTagLoop, walk, ih]
      unfold endsSearch
      by_cases hnull : tag = 0
      · rw [if_neg (not_not_intro hnull), if_pos (decide_eq_true (Or.inl hnull)), hnull]
      · by_cases hid : identifier mem tag = id
        · rw [if_pos hnull, if_pos hid, if_pos (decide_eq_true (Or.inr hid))]
        · rw [if_pos hnull, if_neg hid, if_neg]
          rw [decide_eq_true_eq]
          exact fun h => h.elim hnull hid

/-- **`stivale2_get_tag` ends at the first tag with the identifier or at the end of the
list**: with enough turns it returns a tag exactly if the tags before it, linked from the
struct to it, are other ones, and it has the identifier or is NULL. -/
theorem get_tag_iff (mem : Mem) (s id tag : BitVec 64) :
    (∃ fuel, stivale2GetTag mem s id fuel = some tag) ↔
      ∃ before, Links (nextTag mem) (structTags mem s) before tag ∧
        (∀ t ∈ before, t ≠ 0 ∧ identifier mem t ≠ id) ∧ (tag = 0 ∨ identifier mem tag = id) := by
  have hother (t : BitVec 64) : endsSearch mem id t = false ↔ t ≠ 0 ∧ identifier mem t ≠ id := by
    rw [endsSearch, decide_eq_false_iff_not, not_or]
  unfold stivale2GetTag
  simp only [getTagLoop_eq, walk_eq_some_iff, hother]
  constructor
  · rintro ⟨fuel, before, hlinks, -, hbefore, htag⟩
    exact ⟨before, hlinks, hbefore, of_decide_eq_true htag⟩
  · rintro ⟨before, hlinks, hbefore, htag⟩
    exact ⟨before.length + 1, before, hlinks, Nat.lt_succ_self _, hbefore, decide_eq_true htag⟩

/-! ## The memory map -/

/-- `memory_map->entries`. -/
def entries (mem : Mem) (memoryMap : BitVec 64) : BitVec 64 := load64 mem (fieldAddr memoryMap 16)

/-- `&memory_map->memmap[i]`. -/
def entryAddr (memoryMap : BitVec 64) (i : ℕ) : BitVec 64 := fieldAddr memoryMap (24 + 24 * i)

/-- The entry at an address. -/
def mmapEntry (mem : Mem) (cur : BitVec 64) : MmapEntry where
  base := load64 mem (fieldAddr cur 0)
  length := load64 mem (fieldAddr cur 8)
  type := load32 mem (fieldAddr cur 16)

/-- The entries that the loops over the memory map come to, in order. -/
def memmapAt (mem : Mem) (memoryMap : BitVec 64) : List MmapEntry :=
  (List.range (entries mem memoryMap).toNat).map fun i => mmapEntry mem (entryAddr memoryMap i)

/-- `pmm_init`: the new `p`. -/
def pmmInit (mem : Mem) (s p : BitVec 64) (fuel : ℕ) : Option (BitVec 64) :=
  (stivale2GetTag mem s memmapId fuel).map fun memoryMap =>
    Allocator.pmmInit (memmapAt mem memoryMap) p

/-! ## The framebuffer -/

/-- `GFX_BLACK`. -/
def gfxBlack : BitVec 32 := gfxColors.getD 0 0

/-- Load a `uint16_t`. -/
def load16 (mem : Mem) (a : BitVec 64) : ℕ := loadLE mem a 2

/-- The static variable `graphics`. -/
structure Framebuffer where
  pixels : BitVec 64
  width : ℕ
  height : ℕ
  pitch : ℕ
  bpp : ℕ
  deriving DecidableEq, Repr

/-- The framebuffer that a tag describes; its pitch is in bytes. -/
def framebufferAt (mem : Mem) (info : BitVec 64) : Framebuffer where
  pixels := load64 mem (fieldAddr info 16)
  width := load16 mem (fieldAddr info 24)
  height := load16 mem (fieldAddr info 26)
  pitch := load16 mem (fieldAddr info 28) / 4
  bpp := load16 mem (fieldAddr info 30)

theorem load16_lt (mem : Mem) (a : BitVec 64) : load16 mem a < 2 ^ 16 := loadLE_lt mem a 2

theorem pitch_lt (mem : Mem) (info : BitVec 64) : (framebufferAt mem info).pitch < 2 ^ 16 :=
  (Nat.div_le_self _ 4).trans_lt (load16_lt mem _)

/-- `graphics` before it is cleared; the words of the framebuffer are in memory. -/
def graphicsAt (mem : Mem) (font : Memory ℕ) (info : BitVec 64) : Graphics where
  pixels := Tracked.fresh fun k =>
    load32 mem (fieldAddr (framebufferAt mem info).pixels (4 * k))
  pitch := (framebufferAt mem info).pitch
  pitch_lt := pitch_lt mem info
  font := Tracked.fresh font

/-- `graphics_init`. -/
def graphicsInit (mem : Mem) (s : BitVec 64) (font : Memory ℕ) (color : BitVec 32) (fuel : ℕ) :
    Option (Framebuffer × Graphics) :=
  (stivale2GetTag mem s framebufferId fuel).map fun info =>
    let framebuffer := framebufferAt mem info
    (framebuffer,
      graphicsClear (graphicsAt mem font info) framebuffer.width framebuffer.height color)

/-! ## The start of `kmain` -/

/-- The static data of allocator, graphics and terminal, with what was written through
their pointers. -/
structure Machine where
  /-- The pointer of the allocator. -/
  p : BitVec 64
  framebuffer : Framebuffer
  /-- `terminal.Buffer`. -/
  buffer : BitVec 64
  screen : Screen

/-- The bytes of the terminal's buffer. -/
def bufferSize (f : Framebuffer) : ℕ := 2 * u32 (f.width / 8 * (f.height / 16))

/-- `terminal_init` with its block from `malloc`. -/
def terminalStart (mem : Mem) (p : BitVec 64) (framebuffer : Framebuffer) (graphics : Graphics) :
    Machine :=
  let (buffer, p) := Allocator.malloc p (BitVec.ofNat 64 (bufferSize framebuffer))
  let heap : Memory ℕ := fun i => mem (fieldAddr buffer i)
  let pitch : Fin (2 ^ 16) := ⟨graphics.pitch, graphics.pitch_lt⟩
  let boot := { Screen.boot (fun _ => 0) (fun _ => 0) pitch with graphics }
  { p, framebuffer, buffer
    screen := terminalInit boot heap framebuffer.width framebuffer.height }

/-- `kmain` up to `terminal_init`, if its searches for tags end within `fuel` turns. -/
def start (mem : Mem) (s : BitVec 64) (font : Memory ℕ) (fuel : ℕ) : Option Machine := do
  let p ← pmmInit mem s 0 fuel
  let (framebuffer, graphics) ← graphicsInit mem s font gfxBlack fuel
  return terminalStart mem p framebuffer graphics

/-- `printf` and the other callers of the terminal, from then on. -/
def Machine.run (m : Machine) (calls : List Call) : Machine :=
  { m with screen := runCalls m.screen calls }

/-- The bytes of the pixels that were written, counted from `graphics.Pixels`. -/
def Machine.pixelBytes (m : Machine) : List ℕ :=
  m.screen.graphics.pixels.writes.flatMap fun k => (List.range 4).map (4 * k + ·)

/-- Physical memory with everything that was written through `terminal.Buffer` and
`graphics.Pixels`; of the kernel itself any bytes may have changed. -/
def Machine.memory (v : Mapping) (ram kernel : Mem) (m : Machine) : Mem := fun p =>
  if v.own p then kernel p
  else
    match m.screen.terminal.buffer.writes.find? fun i => v.translate (fieldAddr m.buffer i) = p with
    | some i => m.screen.terminal.buffer.cell i
    | none =>
        match m.pixelBytes.find? fun o =>
            v.translate (fieldAddr m.framebuffer.pixels o) = p with
        | some o => (m.screen.graphics.pixels.cell (o / 4) >>> (8 * (o % 4))).setWidth 8
        | none => ram p

end OsdevX64.Boot
