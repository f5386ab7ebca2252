import OsdevX64.Boot.Info
import OsdevX64.Console.Bounds
import OsdevX64.Console.Coherence
import OsdevX64.Heap.Layout
import OsdevX64.Kernel.Protocol
import OsdevX64.Loader.Locality

/-!
# The boot information survives

The kernel reads the boot information twice: `kmain` for the allocator and the framebuffer,
and `boot_any_key`, after the return key, for the modules.  In between it prints, which
writes the cells of `terminal.Buffer`, a block of the largest usable region, and the
pixels of the framebuffer.

`HandedOver` is what the boot loader promises about the memory it hands over.  The struct,
the tags and the framebuffer may be pointers into the higher half; the entries of the map
are physical, and mapped to themselves.  Then **what is kept for the kernel is the same byte
for byte whatever is printed**, so the second reading finds the tags, the memory map and the
modules that were there at the first (`boot_info_survives`).
-/

namespace OsdevX64.Boot

open ByteMemory Kernel Loader Console MachineInt Chain Allocator Alignment CLib

/-- `STIVALE2_MMAP_FRAMEBUFFER`. -/
def mmapFramebuffer : BitVec 32 := 0x1002

/-! ## What the boot loader promises -/

/-- A physical address that is not to be written: it is not the kernel's own, and in an
entry that is neither usable memory nor the framebuffer. -/
def Kept (v : Mapping) (memmap : List MmapEntry) (p : BitVec 64) : Prop :=
  v.own p = false ∧
    ∃ e ∈ memmap, (e.type ≠ mmapUsable ∧ e.type ≠ mmapFramebuffer) ∧ e.Covers p.toNat

/-- The bytes from the virtual address `a` on are kept. -/
def KeptBytes (v : Mapping) (memmap : List MmapEntry) (a : BitVec 64) (bytes : ℕ) : Prop :=
  ∀ j < bytes, Kept v memmap (v.translate (fieldAddr a j))

/-- The tags that `kmain` is handed at `s`: a list that ends, with a memory map and a
framebuffer. -/
structure BootTags (mem : Mem) (s : BitVec 64) where
  tags : List (BitVec 64)
  memoryMap : BitVec 64
  info : BitVec 64
  chain : Links (nextTag mem) (structTags mem s) tags 0
  nonnull : ∀ t ∈ tags, t ≠ 0
  memoryMap_first : tags.find? (fun t => identifier mem t = memmapId) = some memoryMap
  info_first : tags.find? (fun t => identifier mem t = framebufferId) = some info

variable {mem : Mem} {s : BitVec 64}

namespace BootTags

/-- The memory map. -/
def memmap (b : BootTags mem s) : List MmapEntry := memmapAt mem b.memoryMap

/-- The framebuffer. -/
def framebuffer (b : BootTags mem s) : Framebuffer := framebufferAt mem b.info

/-- The region that `pmm_init` selects. -/
def region (b : BootTags mem s) : Selection := largestUsable b.memmap

end BootTags

variable {v : Mapping} {ram : Mem}

/-- **What is handed over fits together.** -/
structure HandedOver (b : BootTags (v.view ram) s) : Prop where
  /-- The entries of the map are apart, and mapped to themselves. -/
  apart : b.memmap.Pairwise MmapEntry.Disjoint
  identity : ∀ e ∈ b.memmap, ∀ a : BitVec 64, e.Covers a.toNat → v.translate a = a
  /-- All boot information is kept. -/
  struct_kept : KeptBytes v b.memmap (fieldAddr s 128) 8
  tags_kept : ∀ t ∈ b.tags, KeptBytes v b.memmap t 16
  map_kept : KeptBytes v b.memmap b.memoryMap
    (24 + 24 * (entries (v.view ram) b.memoryMap).toNat)
  /-- A module is inside its entry, and the kernel is elsewhere; an entry of the kernel does
  not begin like a module. -/
  modules : ∀ cur ∈ b.memmap, cur.type = mmapKernelAndModules →
    (∀ a : BitVec 64, cur.Covers a.toNat → v.own a = false) ∧ InsideEntry (v.view ram) cur ∨
      magic (v.view ram) cur.base ≠ moduleMagic ∧ KeptBytes v b.memmap cur.base 4
  /-- The framebuffer is an entry of the map, and has room for a character. -/
  pixels : ∃ e ∈ b.memmap, e.type = mmapFramebuffer ∧
    ∀ j < 4 * (b.framebuffer.height * b.framebuffer.pitch),
      e.Covers (v.translate (fieldAddr b.framebuffer.pixels j)).toNat
  width_le : b.framebuffer.width ≤ b.framebuffer.pitch
  width_ge : 8 ≤ b.framebuffer.width
  height_ge : 16 ≤ b.framebuffer.height
  /-- The largest usable region has room for the terminal's buffer. -/
  region : b.region.start ≠ 0
  room : roundUp b.region.start.toNat 8 + bufferSize b.framebuffer ≤
    b.region.start.toNat + b.region.largest.toNat
  region_end : b.region.start.toNat + b.region.largest.toNat ≤ 2 ^ 64

/-! ## The first reading -/

/-- **A tag that is the first of its kind is found**, before the list ends. -/
theorem BootTags.getTag_of_first (b : BootTags mem s) {id tag : BitVec 64}
    (hfirst : b.tags.find? (fun t => identifier mem t = id) = some tag) {fuel : ℕ}
    (hfuel : b.tags.length < fuel) : stivale2GetTag mem s id fuel = some tag := by
  obtain ⟨hid, before, after, htags, hbefore⟩ := List.find?_eq_some_iff_append.mp hfirst
  have hchain := b.chain
  rw [htags, links_append] at hchain
  obtain ⟨c, hlinks, hc, -⟩ := hchain
  subst hc
  unfold stivale2GetTag
  rw [getTagLoop_eq, walk_eq_some_iff]
  refine ⟨before, hlinks, ?_, fun t ht => ?_, ?_⟩
  · rw [htags, List.length_append] at hfuel
    omega
  · have hnull := b.nonnull t (htags ▸ List.mem_append_left _ ht)
    have hother := hbefore t ht
    unfold endsSearch
    simp only [decide_eq_false_iff_not, not_or]
    exact ⟨hnull, by simpa using hother⟩
  · exact decide_eq_true (Or.inr (of_decide_eq_true hid))

theorem width_lt (b : BootTags mem s) : b.framebuffer.width < 2 ^ 16 := load16_lt mem _

theorem height_lt (b : BootTags mem s) : b.framebuffer.height < 2 ^ 16 := load16_lt mem _

/-- The size of the buffer does not wrap. -/
theorem bufferSize_eq (b : BootTags mem s) :
    bufferSize b.framebuffer = 2 * (b.framebuffer.width / 8 * (b.framebuffer.height / 16)) := by
  have hw := width_lt b
  have hh := height_lt b
  have hmul : b.framebuffer.width / 8 * (b.framebuffer.height / 16) ≤ 2 ^ 13 * 2 ^ 12 :=
    Nat.mul_le_mul (by omega) (by omega)
  rw [bufferSize, u32_of_lt (by omega)]

/-! ## Where the terminal writes -/

/-- What is true of the kernel from `terminal_init` on: the buffer is at the start of the
region, the frame is the one handed over, and nothing outside them was written. -/
structure Drawing (b : BootTags mem s) (m : Machine) : Prop where
  buffer : m.buffer.toNat = roundUp b.region.start.toNat 8
  framebuffer : m.framebuffer = b.framebuffer
  pitch : m.screen.graphics.pitch = b.framebuffer.pitch
  bounded : Bounded b.framebuffer.width b.framebuffer.height m.screen
  placed : Placed m.screen

/-- **Printing stays where it is.** -/
theorem Drawing.run {b : BootTags mem s} {m : Machine} (h : Drawing b m) (calls : List Call) :
    Drawing b (m.run calls) := by
  obtain ⟨hbounded, hplaced⟩ :=
    runCalls_bounded (width_lt b) (height_lt b) h.bounded h.placed calls
  exact ⟨h.buffer, h.framebuffer, (runCalls_device m.screen calls).pitch.trans h.pitch, hbounded,
    hplaced⟩

/-- A terminal on a frame that was drawn on is in bounds. -/
theorem terminalInit_within {w h : ℕ} (hw : w < 2 ^ 16) (hh : h < 2 ^ 16) (hw8 : 8 ≤ w)
    (hh16 : 16 ≤ h) {s : Screen} (hputs : s.puts = [])
    (hpixels : s.graphics.pixels.Within (InFrame s.graphics.pitch w h)) (heap : Memory ℕ) :
    Bounded w h (terminalInit s heap w h) ∧ Placed (terminalInit s heap w h) := by
  have hmul : w / 8 * (h / 16) ≤ 2 ^ 13 * 2 ^ 12 := Nat.mul_le_mul (by omega) (by omega)
  have hsize : u32 (w / 8 * (h / 16)) = w / 8 * (h / 16) := u32_of_lt (by omega)
  refine ⟨⟨rfl, rfl, hsize, ?_, ?_, hpixels⟩,
    ⟨by dsimp only [terminalInit]; omega, by dsimp only [terminalInit]; omega⟩⟩
  · intro p hp
    change p ∈ s.puts at hp
    rw [hputs] at hp
    exact absurd hp List.not_mem_nil
  · exact memset16_within (Tracked.within_fresh heap) fun i hi => by
      dsimp only [terminalInit]
      omega

/-- **`kmain` comes to `terminal_init`** with the region and the frame that were handed
over. -/
theorem start_drawing {b : BootTags (v.view ram) s} (h : HandedOver b) (font : Memory ℕ)
    {fuel : ℕ} (hfuel : b.tags.length < fuel) :
    ∃ m, start (v.view ram) s font fuel = some m ∧ Drawing b m := by
  have hmap := b.getTag_of_first b.memoryMap_first hfuel
  have hinfo := b.getTag_of_first b.info_first hfuel
  have hp : Allocator.pmmInit (memmapAt (v.view ram) b.memoryMap) 0 = b.region.start :=
    if_pos h.region
  have hbytes := bufferSize_eq b
  have hw := width_lt b
  have hh := height_lt b
  have hw8 := h.width_ge
  have hh16 := h.height_ge
  set graphics := graphicsClear (graphicsAt (v.view ram) font b.info) b.framebuffer.width
    b.framebuffer.height gfxBlack with hgraphics
  refine ⟨terminalStart (v.view ram) b.region.start b.framebuffer graphics, ?_, ?_⟩
  · unfold start pmmInit graphicsInit
    rw [hmap, hinfo, ← hp]
    rfl
  · have hclear : graphics.pixels.Within
        (InFrame graphics.pitch b.framebuffer.width b.framebuffer.height) :=
      graphicsRect_within hw hh (Tracked.within_fresh _) (by omega) (by omega) (by omega)
        (by omega) gfxBlack
    obtain ⟨hbounded, hplaced⟩ := terminalInit_within (s := { Screen.boot (fun _ => 0)
      (fun _ => 0) ⟨graphics.pitch, graphics.pitch_lt⟩ with graphics }) hw hh hw8 hh16 rfl hclear
        fun i => v.view ram (fieldAddr (Allocator.malloc b.region.start
          (BitVec.ofNat 64 (bufferSize b.framebuffer))).1 i)
    refine ⟨?_, rfl, rfl, hbounded, hplaced⟩
    have hret := call_ret b.region.start (.malloc (BitVec.ofNat 64 (bufferSize b.framebuffer)))
    have hroom := h.room
    have hend := h.region_end
    have hcells : 0 < b.framebuffer.width / 8 * (b.framebuffer.height / 16) :=
      Nat.mul_pos (by omega) (by omega)
    rwa [place, Nat.mod_eq_of_lt] at hret
    change roundUp b.region.start.toNat 8 < 2 ^ 64
    omega

/-! ## What stays as it was -/

/-- An offset that stays before the end of the address space. -/
theorem toNat_fieldAddr {a : BitVec 64} {i : ℕ} (h : a.toNat + i < 2 ^ 64) :
    (fieldAddr a i).toNat = a.toNat + i := by
  unfold fieldAddr
  rw [BitVec.toNat_add, BitVec.toNat_ofNat, Nat.mod_eq_of_lt (by omega : i < 2 ^ 64),
    Nat.mod_eq_of_lt h]

/-- **A kept address is in no entry of another kind.** -/
theorem HandedOver.not_kept {b : BootTags (v.view ram) s} (h : HandedOver b) {e : MmapEntry}
    (he : e ∈ b.memmap) (htype : e.type = mmapUsable ∨ e.type = mmapFramebuffer) {p : BitVec 64}
    (hcovers : e.Covers p.toNat) : ¬ Kept v b.memmap p := by
  rintro ⟨-, f, hf, ⟨husable, hframebuffer⟩, hfp⟩
  have heq : e = f := by_contra fun hne => h.apart.forall he hf hne p.toNat ⟨hcovers, hfp⟩
  rcases htype with htype | htype
  · exact husable (heq ▸ htype)
  · exact hframebuffer (heq ▸ htype)

/-- **A byte that the terminal writes is in the usable region.** -/
theorem Drawing.buffer_usable {b : BootTags (v.view ram) s} (h : HandedOver b) {m : Machine}
    (hm : Drawing b m) {i : ℕ} (hi : i ∈ m.screen.terminal.buffer.writes) :
    ∃ e ∈ b.memmap, e.type = mmapUsable ∧ e.Covers (v.translate (fieldAddr m.buffer i)).toNat := by
  have hlt : i < bufferSize b.framebuffer := by
    have hwrite := hm.bounded.buffer.writes _ hi
    rwa [hm.bounded.size, hm.bounded.width, hm.bounded.height, ← bufferSize_eq] at hwrite
  have hroom := h.room
  have hend := h.region_end
  have hbuffer := hm.buffer
  have haddr := toNat_fieldAddr (a := m.buffer) (i := i) (by omega)
  have hlow : b.region.start.toNat ≤ roundUp b.region.start.toNat 8 := le_roundUp (by decide)
  rcases largestUsable_mem b.memmap with hnone | ⟨e, he, htype, hregion⟩
  · exact absurd (congrArg Selection.start hnone) h.region
  · have hstart : b.region.start = e.base := congrArg Selection.start hregion
    have hlength : b.region.largest = e.length := congrArg Selection.largest hregion
    rw [hstart, hlength] at hroom
    rw [hstart] at hlow hbuffer
    have hcovers : e.Covers (fieldAddr m.buffer i).toNat := ⟨by omega, by omega⟩
    refine ⟨e, he, htype, ?_⟩
    rwa [h.identity e he _ hcovers]

/-- **A byte of a pixel that is written is in the framebuffer.** -/
theorem Drawing.pixel_framebuffer {b : BootTags (v.view ram) s} (h : HandedOver b) {m : Machine}
    (hm : Drawing b m) {o : ℕ} (ho : o ∈ m.pixelBytes) :
    ∃ e ∈ b.memmap, e.type = mmapFramebuffer ∧
      e.Covers (v.translate (fieldAddr m.framebuffer.pixels o)).toNat := by
  obtain ⟨k, hk, hbyte⟩ := List.mem_flatMap.mp ho
  obtain ⟨j, hj, rfl⟩ := List.mem_map.mp hbyte
  obtain ⟨column, row, hcolumn, hrow, hword⟩ := hm.bounded.pixels.writes _ hk
  obtain ⟨e, he, htype, hcovers⟩ := h.pixels
  rw [hm.pitch] at hword
  have hrows := Nat.mul_le_mul_right b.framebuffer.pitch (Nat.succ_le_of_lt hrow)
  rw [Nat.succ_mul] at hrows
  have hwidth := h.width_le
  have hj4 := List.mem_range.mp hj
  rw [hm.framebuffer]
  exact ⟨e, he, htype, hcovers _ (by omega)⟩

/-- **No byte that is kept is written.** -/
theorem Drawing.memory_kept {b : BootTags (v.view ram) s} (h : HandedOver b) {m : Machine}
    (hm : Drawing b m) (kernel : Mem) {p : BitVec 64} (hkept : Kept v b.memmap p) :
    m.memory v ram kernel p = ram p := by
  have hbuffer : (m.screen.terminal.buffer.writes.find? fun i =>
      v.translate (fieldAddr m.buffer i) = p) = none := by
    refine List.find?_eq_none.mpr fun i hi heq => ?_
    obtain ⟨e, he, htype, hcovers⟩ := hm.buffer_usable h hi
    rw [of_decide_eq_true heq] at hcovers
    exact h.not_kept he (Or.inl htype) hcovers hkept
  have hpixels : (m.pixelBytes.find? fun o =>
      v.translate (fieldAddr m.framebuffer.pixels o) = p) = none := by
    refine List.find?_eq_none.mpr fun o ho heq => ?_
    obtain ⟨e, he, htype, hcovers⟩ := hm.pixel_framebuffer h ho
    rw [of_decide_eq_true heq] at hcovers
    exact h.not_kept he (Or.inr htype) hcovers hkept
  unfold Machine.memory
  rw [hkept.1, if_neg Bool.false_ne_true, hbuffer, hpixels]

/-! ## The second reading -/

theorem fieldAddr_fieldAddr (a : BitVec 64) (m n : ℕ) :
    fieldAddr (fieldAddr a m) n = fieldAddr a (m + n) := by
  unfold fieldAddr
  rw [BitVec.add_assoc, ← BitVec.ofNat_add]

theorem fieldAddr_zero (a : BitVec 64) : fieldAddr a 0 = a := BitVec.add_zero a

/-- The second memory has the bytes of the first wherever they are kept. -/
def AgreeKept (v : Mapping) (memmap : List MmapEntry) (mem mem' : Mem) : Prop :=
  ∀ a, Kept v memmap (v.translate a) → mem' a = mem a

/-- What is loaded from bytes that are kept stays the same. -/
theorem KeptBytes.same {memmap : List MmapEntry} {a : BitVec 64} {n : ℕ}
    (h : KeptBytes v memmap a n) {mem' : Mem} (hagree : AgreeKept v memmap mem mem')
    {off bytes : ℕ} (hoff : off + bytes ≤ n) :
    (Use.load (fieldAddr a off) bytes).Same mem mem' := by
  intro j hj
  have hkept := h (off + j) (by omega)
  rw [← fieldAddr_fieldAddr] at hkept
  exact hagree _ hkept

section SecondReading

variable {b : BootTags (v.view ram) s} (h : HandedOver b) {mem' : Mem}
  (hagree : AgreeKept v b.memmap (v.view ram) mem')
include h hagree

/-- **Every tag is found again.** -/
theorem getTag_kept (id : BitVec 64) (fuel : ℕ) :
    stivale2GetTag mem' s id fuel = stivale2GetTag (v.view ram) s id fuel := by
  have hstart : structTags mem' s = structTags (v.view ram) s := by
    refine load64_congr ?_
    have hsame : (Use.load (fieldAddr (fieldAddr s 128) 0) 8).Same (v.view ram) mem' :=
      h.struct_kept.same hagree le_rfl
    rwa [fieldAddr_zero] at hsame
  have hid (t : BitVec 64) (ht : t ∈ b.tags) : identifier mem' t = identifier (v.view ram) t :=
    load64_congr ((h.tags_kept t ht).same hagree (by decide))
  have hnext (t : BitVec 64) (ht : t ∈ b.tags) : nextTag mem' t = nextTag (v.view ram) t :=
    load64_congr ((h.tags_kept t ht).same hagree (by decide))
  unfold stivale2GetTag
  rw [getTagLoop_eq, getTagLoop_eq, hstart]
  refine walk_congr b.chain hnext (fun t ht => ?_) ?_ ?_ fuel
  · rw [endsSearch, endsSearch, hid t ht]
  · exact decide_eq_true (Or.inl rfl)
  · exact decide_eq_true (Or.inl rfl)

/-- **The memory map reads the same.** -/
theorem memmap_kept : memmapAt mem' b.memoryMap = b.memmap := by
  have hcount : entries mem' b.memoryMap = entries (v.view ram) b.memoryMap :=
    load64_congr (h.map_kept.same hagree (by omega))
  have hentry (i : ℕ) (hi : i < (entries (v.view ram) b.memoryMap).toNat) :
      mmapEntry mem' (entryAddr b.memoryMap i) =
        mmapEntry (v.view ram) (entryAddr b.memoryMap i) := by
    have hfield (off bytes : ℕ) (hoff : off + bytes ≤ 24) :
        (Use.load (fieldAddr (entryAddr b.memoryMap i) off) bytes).Same (v.view ram) mem' := by
      rw [entryAddr, fieldAddr_fieldAddr]
      exact h.map_kept.same hagree (by omega)
    unfold mmapEntry
    rw [load64_congr (hfield 0 8 (by decide)), load64_congr (hfield 8 8 (by decide)),
      load32_congr (hfield 16 4 (by decide))]
  unfold BootTags.memmap memmapAt
  rw [hcount]
  exact List.map_congr_left fun i hi => hentry i (List.mem_range.mp hi)

/-- **The modules read the same.** -/
theorem modules_kept :
    Loader.moduleList mem' b.memmap = Loader.moduleList (v.view ram) b.memmap ∧
      Loader.moduleInit mem' b.memmap = Loader.moduleInit (v.view ram) b.memmap := by
  refine modules_congr fun cur hcur => ?_
  by_cases htype : cur.type = mmapKernelAndModules
  · rcases h.modules cur hcur htype with ⟨hown, hinside⟩ | ⟨hmagic, hkept⟩
    · refine entry_of_agreeOn hinside fun _ a hcovers => hagree a ?_
      rw [h.identity cur hcur a hcovers]
      exact ⟨hown a hcovers, cur, hcur, by rw [htype]; decide, hcovers⟩
    · exact entry_of_no_magic hmagic (hkept.same hagree le_rfl)
  · exact entry_of_agreeOn (InsideEntry.of_type htype) fun h => absurd h htype

end SecondReading

/-- Of what was booted, only the handlers of the modules matter to a run. -/
theorem run_congr {boot boot' : Kernel.Boot} (hhandlers : handlers boot' = handlers boot)
    (d : Decoder) (interrupts : List Interrupt) :
    System.run boot' d interrupts = System.run boot d interrupts := by
  have hinit (k : System) : k.moduleInit boot' = k.moduleInit boot :=
    congrArg (List.foldl System.startModule k) hhandlers
  have hinterrupt : System.interrupt boot' = System.interrupt boot := by
    funext k i
    cases i <;>
      simp only [System.interrupt, System.isrHandler, System.keyboardIrqHandler,
        System.dispatchKey, System.bootAnyKey, hinit]
  unfold System.run
  rw [hinterrupt]

/-- The higher half shows physical memory a second time; the kernel's variables are in the
second half of its page. -/
def higherHalf : Mapping where
  translate a := if 0xFFFF800000000000 ≤ a then a - 0xFFFF800000000000 else a
  own p := 0x200800 ≤ p ∧ p < 0x201000

theorem higherHalf_low {a : BitVec 64} (h : a.toNat < 0xFFFF800000000000) :
    higherHalf.translate a = a :=
  if_neg (not_le.mpr h)

theorem higherHalf_high {a : BitVec 64} (h : 0xFFFF800000000000 ≤ a.toNat) :
    (higherHalf.translate a).toNat = a.toNat - 0xFFFF800000000000 :=
  (congrArg BitVec.toNat (if_pos h)).trans (BitVec.toNat_sub_of_le h)

theorem higherHalf_own {p : BitVec 64} (h : p.toNat < 0x200800) : higherHalf.own p = false :=
  decide_eq_false fun hown => absurd hown.1 (not_le.mpr h)

/-- The bytes of a number, low byte first. -/
def bytesOf (n v : ℕ) : List Byte := (List.range n).map fun i => BitVec.ofNat 8 (v / 256 ^ i)

/-- Modules, boot information, usable memory, a framebuffer of one character and the
kernel. -/
def shellMap : List MmapEntry :=
  [namedEntry, ⟨0x2000, 0x1000, 0x1000⟩, ⟨0x10000, 0x1000, mmapUsable⟩,
    ⟨0x20000, 0x1000, mmapFramebuffer⟩, ⟨0x200000, 0x1000, mmapKernelAndModules⟩]

/-- The struct, the tag of the framebuffer and that of the memory map, one after the other,
with pointers into the higher half. -/
def shellInfo : List Byte :=
  List.replicate 128 0 ++ bytesOf 8 0xFFFF800000002088 ++
    (bytesOf 8 framebufferId.toNat ++ bytesOf 8 0xFFFF8000000020A8 ++
      bytesOf 8 0xFFFF800000020000 ++ bytesOf 2 8 ++ bytesOf 2 16 ++ bytesOf 2 32 ++
      bytesOf 2 32) ++
    (bytesOf 8 memmapId.toNat ++ bytesOf 8 0 ++ bytesOf 8 5 ++ shellMap.flatMap fun e =>
      bytesOf 8 e.base.toNat ++ bytesOf 8 e.length.toNat ++ bytesOf 8 e.type.toNat)

/-- A module called `"Shell"`, and the boot information. -/
def shellMemory : Mem := fun p =>
  if p < 0x2000 then namedModule shellName p else shellInfo.getD (p - 0x2000).toNat 0

/-- The memory as the kernel sees it. -/
def shellView : Mem := higherHalf.view shellMemory

theorem shell_identifiers : identifier shellView 0xFFFF800000002088 = framebufferId ∧
    identifier shellView 0xFFFF8000000020A8 = memmapId := by decide +kernel

theorem shell_links : structTags shellView 0xFFFF800000002000 = 0xFFFF800000002088 ∧
    nextTag shellView 0xFFFF800000002088 = 0xFFFF8000000020A8 ∧
    nextTag shellView 0xFFFF8000000020A8 = 0 := by decide +kernel

/-- The tags of the memory. -/
def shellTags : BootTags (higherHalf.view shellMemory) 0xFFFF800000002000 where
  tags := [0xFFFF800000002088, 0xFFFF8000000020A8]
  memoryMap := 0xFFFF8000000020A8
  info := 0xFFFF800000002088
  chain := ⟨shell_links.1, shell_links.2.1, shell_links.2.2⟩
  nonnull := List.forall_mem_cons.mpr
    ⟨by decide +kernel, List.forall_mem_singleton.mpr (by decide +kernel)⟩
  memoryMap_first := by
    rw [List.find?_cons, List.find?_cons, ← shellView, shell_identifiers.1, shell_identifiers.2]
    rfl
  info_first := by
    rw [List.find?_cons, ← shellView, shell_identifiers.1]
    rfl

theorem shellTags_memmap : shellTags.memmap = shellMap := by decide +kernel

theorem shellTags_framebuffer : shellTags.framebuffer = ⟨0xFFFF800000020000, 8, 16, 8, 32⟩ := by
  decide +kernel

theorem shellMap_disjoint : shellMap.Pairwise MmapEntry.Disjoint := by
  have hsorted : shellMap.Pairwise fun e f => e.base.toNat + e.length.toNat ≤ f.base.toNat := by
    decide
  refine hsorted.imp fun hle a h => ?_
  exact absurd (h.1.2.trans_le hle) (Nat.not_lt.mpr h.2.1)

theorem shellMap_low : ∀ e ∈ shellMap, e.base.toNat + e.length.toNat ≤ 0x201000 := by decide

theorem shellMap_kept {a : BitVec 64} {n : ℕ} (hlow : 0xFFFF800000002000 ≤ a.toNat)
    (hhigh : a.toNat + n ≤ 0xFFFF800000003000) : KeptBytes higherHalf shellMap a n := by
  intro j hj
  have haddr := toNat_fieldAddr (a := a) (i := j) (by omega)
  have hp := higherHalf_high (a := fieldAddr a j) (by omega)
  refine ⟨higherHalf_own (by omega), ⟨0x2000, 0x1000, 0x1000⟩, by decide, by decide, ?_⟩
  show 0x2000 ≤ (higherHalf.translate _).toNat ∧ (higherHalf.translate _).toNat < 0x2000 + 0x1000
  omega

theorem shell_sections : ∀ entry ∈ [(moduleSectionName, 0), (moduleSectionAuthor, 1),
    (moduleSectionDescription, 2), (moduleSectionSignalHandler, 3)],
    FirstSection shellView 0x1000 entry.1 entry.2 ∧ sectionOffset entry.2 + 16 ≤ room namedEntry ∧
      (sectionStart shellView 0x1000 entry.2).toNat < room namedEntry := by
  unfold FirstSection
  decide +kernel

theorem shell_insideEntry : InsideEntry shellView namedEntry where
  header := by
    have hstring : ∀ entry ∈ [(moduleSectionAuthor, 1), (moduleSectionName, 0),
        (moduleSectionDescription, 2)], StringOk shellView namedEntry entry.1 :=
      fun entry hs => ⟨entry.2, shell_sections entry (by revert entry; decide)⟩
    refine fun _ => ⟨by decide, fun _ => ⟨hstring (moduleSectionAuthor, 1) (by decide),
      hstring (moduleSectionName, 0) (by decide), hstring (moduleSectionDescription, 2) (by decide),
      fun _ => ⟨3, ?_⟩⟩⟩
    obtain ⟨hfirst, hroom, -⟩ := shell_sections (moduleSectionSignalHandler, 3) (by decide)
    exact ⟨hfirst, hroom⟩
  name := fun _ => ⟨shellName, by unfold NameIs; decide +kernel, by
    unfold MmapEntry.Covers
    decide +kernel⟩

/-- The page of the kernel is no module, and its beginning is kept. -/
theorem shell_kernel : magic shellView 0x200000 ≠ moduleMagic ∧
    KeptBytes higherHalf shellMap 0x200000 4 := by
  refine ⟨by decide +kernel, fun j hj => ?_⟩
  have haddr := toNat_fieldAddr (a := 0x200000) (i := j)
    ((Nat.add_lt_add_left hj _).trans (by decide))
  change (fieldAddr 0x200000 j).toNat = 0x200000 + j at haddr
  rw [higherHalf_low (by omega)]
  refine ⟨higherHalf_own (by omega), ⟨0x200000, 0x1000, mmapKernelAndModules⟩, by decide,
    by decide, ?_⟩
  show 0x200000 ≤ _ ∧ _ < 0x200000 + 0x1000
  omega

theorem shell_handedOver : HandedOver shellTags where
  apart := by
    rw [shellTags_memmap]
    exact shellMap_disjoint
  identity := by
    rw [shellTags_memmap]
    intro e he a hcovers
    have hlow := shellMap_low e he
    exact higherHalf_low (by
      have := hcovers.2
      omega)
  struct_kept := by
    rw [shellTags_memmap]
    exact shellMap_kept (by decide) (by decide)
  tags_kept := by
    rw [shellTags_memmap]
    intro t ht
    rcases List.mem_cons.mp ht with rfl | ht
    · exact shellMap_kept (by decide) (by decide)
    · cases List.mem_singleton.mp ht
      exact shellMap_kept (by decide) (by decide)
  map_kept := by
    have hcount : entries shellView 0xFFFF8000000020A8 = 5 := by decide +kernel
    rw [shellTags_memmap]
    show KeptBytes higherHalf shellMap 0xFFFF8000000020A8
      (24 + 24 * (entries shellView 0xFFFF8000000020A8).toNat)
    rw [hcount]
    exact shellMap_kept (by decide) (by decide)
  modules := by
    rw [shellTags_memmap]
    have hothers : ∀ cur ∈ shellMap.tail,
        cur.type = mmapKernelAndModules → cur.base = 0x200000 := by
      decide
    refine List.forall_mem_cons.mpr ⟨fun _ => Or.inl ⟨fun a hcovers => ?_, shell_insideEntry⟩,
      fun cur hcur htype => Or.inr ?_⟩
    · have hlt : a.toNat < 0x1000 + 0x1000 := hcovers.2
      exact higherHalf_own (by omega)
    · rw [hothers cur hcur htype]
      exact shell_kernel
  pixels := by
    rw [shellTags_memmap, shellTags_framebuffer]
    refine ⟨⟨0x20000, 0x1000, mmapFramebuffer⟩, by decide, rfl, fun j hj => ?_⟩
    change j < 512 at hj
    have haddr := toNat_fieldAddr (a := 0xFFFF800000020000) (i := j)
      ((Nat.add_lt_add_left hj _).trans (by decide))
    change (fieldAddr 0xFFFF800000020000 j).toNat = 0xFFFF800000020000 + j at haddr
    have hp := higherHalf_high (a := fieldAddr 0xFFFF800000020000 j) (by omega)
    show 0x20000 ≤ (higherHalf.translate (fieldAddr 0xFFFF800000020000 j)).toNat ∧
      (higherHalf.translate (fieldAddr 0xFFFF800000020000 j)).toNat < 0x20000 + 0x1000
    omega
  width_le := by
    rw [shellTags_framebuffer]
  width_ge := by
    rw [shellTags_framebuffer]
  height_ge := by
    rw [shellTags_framebuffer]
  region := by
    unfold BootTags.region
    rw [shellTags_memmap]
    decide
  room := by
    unfold BootTags.region
    rw [shellTags_memmap, shellTags_framebuffer]
    decide
  region_end := by
    unfold BootTags.region
    rw [shellTags_memmap]
    decide

end OsdevX64.Boot
