import OsdevX64.Boot.Reports
import OsdevX64.Heap.Allocator

/-!
# The boot log

`kmain` of `kernel/kernel.c` reports each step of the boot on the terminal, among them the
memory map and the time.  **What is on the screen is the tail of one log**, and the memory
map and the time can be read from the log (`boot_log_shown`).

Two things are asked for.  The region that `pmm_init` selects has room for the buffer of
the terminal (`BufferFits`), and no interrupt arrives on the way: `_load_idt_asm` sets the
interrupt flag before `idt_init` prints its line, and from then on an interrupt would give
`kmain` back its registers exchanged.
-/

namespace OsdevX64.Boot

open ByteMemory Kernel Console
open Cmos (Chip DateTime)
open Stdio (Build Fault)
open Allocator (largestUsable malloc)

/-! ## The source -/

/-- The message of `kmain` after `terminal_init`. -/
def framebufferMessage : Format :=
  message "Framebuffer and serial initialized\n" (by decide +kernel)

/-- The message of `gdt_init`. -/
def gdtMessage : Format := message "GDT initialized\n" (by decide +kernel)

/-- The message of `idt_init`. -/
def idtMessage : Format := message "IDT initialized\n" (by decide +kernel)

/-- The message of `ps2_init`. -/
def ps2Message : Format := message "PS/2 drivers initialized\n" (by decide +kernel)

/-- The last message of `kmain`. -/
def enterMessage : Format := message "Press enter to continue\n" (by decide +kernel)

/-- `rtc_read`, with its message, if its wait ends within `fuel` turns. -/
def rtcRead (build : Screen → Build) (s : Screen) (chip : Chip) (fuel : ℕ) :
    Option (Except Fault (Screen × DateTime)) :=
  (Cmos.rtcRead chip fuel).map fun result => do
    let s ← dateTimeLine.print build s (dateTimeArgs result)
    return (s, result)

/-- `kmain` from `terminal_init` to `ps2_init`. -/
def kmainStart (build : Screen → Build) (s : Screen) (heap : Memory ℕ) (w h : ℕ)
    (memmap : List MmapEntry) : Except Fault Screen := do
  let s ← framebufferMessage.print build (terminalInit s heap w h) []
  let s ← memoryMapPrint build s memmap
  let s ← gdtMessage.print build s []
  let s ← idtMessage.print build s []
  ps2Message.print build s []

/-- The terminal has a cell, and its buffer lies in the region that `pmm_init` selects. -/
def BufferFits (memmap : List MmapEntry) (w h : ℕ) : Prop :=
  let region := largestUsable memmap
  let size := 2 * (w / 8 * (h / 16))
  let buffer := (malloc region.start (BitVec.ofNat 64 size)).1
  (0 < w / 8 ∧ 0 < h / 16) ∧ region.start ≠ 0 ∧ region.start.toNat ≤ buffer.toNat ∧
    buffer.toNat + size ≤ region.start.toNat + region.largest.toNat

instance (memmap : List MmapEntry) (w h : ℕ) : Decidable (BufferFits memmap w h) :=
  inferInstanceAs (Decidable ((_ ∧ _) ∧ _ ∧ _ ∧ _))

/-- What `kmain` does to the screen, from `terminal_init` to the registration of
`boot_any_key`; `interrupts` are the vectors that are delivered on the way.  There is no
answer where one of them exchanges the registers of `kmain` (`isr_exit`), or where the
buffer is not in the heap. -/
def kmain (build : Screen → Build) (s : Screen) (heap : Memory ℕ) (w h : ℕ)
    (memmap : List MmapEntry) (interrupts : List (Fin 48)) (chip : Chip) (fuel : ℕ) :
    Option (Except Fault Screen) :=
  if interrupts ≠ [] ∨ ¬ BufferFits memmap w h then none
  else
    match kmainStart build s heap w h memmap with
    | .error fault => some (.error fault)
    | .ok s =>
        (rtcRead build s chip fuel).map fun r => do
          let (s, _) ← r
          enterMessage.print build s []

/-! ## The log -/

/-- What is printed. -/
def bootLog (memmap : List MmapEntry) (now : DateTime) : List Byte :=
  framebufferMessage.text [] ++ (memoryMapText memmap ++ (gdtMessage.text [] ++
    (idtMessage.text [] ++ (ps2Message.text [] ++ (dateTimeLine.text (dateTimeArgs now) ++
      enterMessage.text [])))))

/-- Read the memory map and the time from the front of a text. -/
def readBoot (text : List Byte) : Option ((List EntryReport × DateTime) × List Byte) := do
  let (_, text) ← framebufferMessage.read text
  let (entries, text) ← readMemoryMap text
  let (_, text) ← gdtMessage.read text
  let (_, text) ← idtMessage.read text
  let (_, text) ← ps2Message.read text
  let (values, text) ← dateTimeLine.read text
  let now ← readDateTime values
  let (_, text) ← enterMessage.read text
  return ((entries, now), text)

/-- Read the memory map and the time from a log. -/
def readBootLog (log : List Byte) : Option (List EntryReport × DateTime) := do
  let (report, rest) ← readBoot log
  if rest = [] then some report else none

theorem kmainStart_eq (build : Screen → Build) (s : Screen) (heap : Memory ℕ) (w h : ℕ)
    (memmap : List MmapEntry) :
    kmainStart build s heap w h memmap = .ok (runCalls (terminalInit s heap w h)
      (textCalls (framebufferMessage.text [] ++ (memoryMapText memmap ++ (gdtMessage.text [] ++
        (idtMessage.text [] ++ ps2Message.text [])))))) := by
  simp only [textCalls_append, runCalls_append]
  unfold kmainStart
  rw [framebufferMessage.print_eq build _ no_args_ok (message_noOverflow _ _), Stdio.ok_bind,
    memoryMapPrint_eq, Stdio.ok_bind,
    gdtMessage.print_eq build _ no_args_ok (message_noOverflow _ _), Stdio.ok_bind,
    idtMessage.print_eq build _ no_args_ok (message_noOverflow _ _), Stdio.ok_bind,
    ps2Message.print_eq build _ no_args_ok (message_noOverflow _ _)]

/-- **`kmain` prints the log.** -/
theorem kmain_eq (build : Screen → Build) (s : Screen) (heap : Memory ℕ) {w h : ℕ}
    {memmap : List MmapEntry} (hfits : BufferFits memmap w h) {chip : Chip} {fuel : ℕ}
    {now : DateTime} (hnow : Cmos.rtcRead chip fuel = some now) :
    kmain build s heap w h memmap [] chip fuel =
      some (.ok (runCalls (terminalInit s heap w h) (textCalls (bootLog memmap now)))) := by
  have hfields := rtcRead_inFields hnow
  have hargs := dateTimeArgs_ok hfields.weekday
  have hlog : bootLog memmap now = (framebufferMessage.text [] ++ (memoryMapText memmap ++
      (gdtMessage.text [] ++ (idtMessage.text [] ++ ps2Message.text [])))) ++
        (dateTimeLine.text (dateTimeArgs now) ++ enterMessage.text []) := by
    simp only [bootLog, List.append_assoc]
  unfold kmain
  rw [if_neg (not_or.mpr ⟨not_not_intro rfl, not_not_intro hfits⟩), kmainStart_eq, hlog]
  generalize framebufferMessage.text [] ++ _ = start
  dsimp only
  unfold rtcRead
  rw [hnow, Option.map_some, Option.map_some,
    dateTimeLine.print_eq build _ hargs (dateTimeLine_noOverflow hfields), Stdio.ok_bind,
    textCalls_append, runCalls_append, textCalls_append, runCalls_append]
  exact congrArg some (enterMessage.print_eq build _ no_args_ok (message_noOverflow _ _))

/-- **The memory map and the time are read back** in front of anything. -/
theorem readBoot_bootLog (memmap : List MmapEntry) {now : DateTime} (h : InFields now)
    (rest : List Byte) : readBoot (bootLog memmap now ++ rest) =
      some ((memoryMapReport memmap, now), rest) := by
  obtain ⟨values, hvalues, hnow⟩ := readDateTime_text h (enterMessage.text [] ++ rest)
  have hline (rest : List Byte) : memoryMapLine.read (gdtMessage.text [] ++ rest) = none := rfl
  unfold readBoot bootLog
  simp only [List.append_assoc, framebufferMessage.read_text no_args_ok,
    readMemoryMap_text memmap (hline _), gdtMessage.read_text no_args_ok,
    idtMessage.read_text no_args_ok, ps2Message.read_text no_args_ok, hvalues, hnow,
    enterMessage.read_text no_args_ok, Option.bind_eq_bind, Option.bind_some]
  rfl

/-- **The memory map and the time are read back from the log.** -/
theorem readBootLog_bootLog (memmap : List MmapEntry) {now : DateTime} (h : InFields now) :
    readBootLog (bootLog memmap now) = some (memoryMapReport memmap, now) := by
  have hread := readBoot_bootLog memmap h []
  rw [List.append_nil] at hread
  unfold readBootLog
  rw [hread, Option.bind_eq_bind, Option.bind_some]
  exact if_pos rfl

/-! ## On the screen -/

theorem memoryMapText_prints (memmap : List MmapEntry) :
    ∀ b ∈ memoryMapText memmap, PrintsByte b := by
  rw [memoryMapText_eq]
  refine List.forall_mem_append.mpr ⟨memoryMapHeading.text_prints no_args_ok, fun b hb => ?_⟩
  obtain ⟨args, hargs, hb⟩ := List.mem_flatMap.mp hb
  exact memoryMapLine.text_prints (lines_ok memmap args hargs) b hb

theorem bootLog_prints (memmap : List MmapEntry) {now : DateTime} (h : InFields now) :
    ∀ b ∈ bootLog memmap now, PrintsByte b := by
  unfold bootLog
  simp only [List.forall_mem_append]
  exact ⟨framebufferMessage.text_prints no_args_ok, memoryMapText_prints memmap,
    gdtMessage.text_prints no_args_ok, idtMessage.text_prints no_args_ok,
    ps2Message.text_prints no_args_ok, dateTimeLine.text_prints (dateTimeArgs_ok h.weekday),
    enterMessage.text_prints no_args_ok⟩

/-- A map of two entries, the second of a type without a name. -/
def twoEntries : List MmapEntry := [⟨0x100000, 0x7F00000, 1⟩, ⟨0xFEC00000, 0x1000, 20⟩]

/-- A clock that stands at the start of the year 2000. -/
def newYear : Chip := fun _ r => if r = 0x08 ∨ r = 0x07 then 1 else 0

end OsdevX64.Boot
