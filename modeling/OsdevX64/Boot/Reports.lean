import OsdevX64.Clock.Cmos
import OsdevX64.Console.Report
import OsdevX64.Kernel.MemoryMap

/-!
# The memory map and the time on the screen

`memory_map_print` of `kernel/cpu.c` prints a heading and one line for each entry of the
memory map; `rtc_read` of `kernel/cmos.c` prints the date and the time before it returns
them.  Both are read back: **the lines of the memory map give the number, the base, the
length and the known type of every entry** (`memory_map_reads_back`), and the line of the
clock gives the `DateTime` (`readDateTime_text`).
-/

namespace OsdevX64.Boot

open ByteMemory MachineInt Kernel Console
open Cmos (DateTime)
open Stdio (Build Fault Item Value ch integerDirective)

/-! ## Conversions -/

/-- `%016lx`. -/
def hex16 : Item := .directive (integerDirective [.zero] (.digits 1 [6]) .l .x)

/-- `%s`. -/
def str : Item := .directive stringDirective

/-- `%04d` and `%02d`. -/
def zeros (width : ℕ) : Item :=
  .directive (integerDirective [.zero] (.digits width []) .none .d)

/-! ## The memory map -/

/-- The types of entries that have a name. -/
def mmapTypes : List (BitVec 32 × String) :=
  [(1, "Usable"), (2, "Reserved"), (3, "ACPI Reclaimable"), (4, "ACPI Non Volatile Storage"),
    (5, "Bad Memory"), (0x1000, "Bootloader Reclaimable"), (0x1001, "Kernel and Modules"),
    (0x1002, "Framebuffer")]

/-- `get_memory_map_entry_type`. -/
def getMemoryMapEntryType (type : BitVec 32) : String := (mmapTypes.lookup type).getD "Unknown"

/-- The heading. -/
def memoryMapHeading : Format where
  items := stretch "Memory map layout:\n" ++
    stretch "       Base:                Size:                Type:\n"
  delimited := by decide +kernel
  fit := by decide +kernel
  textsEnd := by decide +kernel
  room_lt := by decide +kernel

/-- The line of an entry. -/
def memoryMapLine : Format where
  items := .directive (integerDirective [] (.digits 4 []) .l .d) ::
    stretch ":  0x" ++ hex16 :: stretch " | 0x" ++ hex16 :: stretch " | " ++ str :: stretch "\n"
  delimited := by decide +kernel
  fit := by decide +kernel
  textsEnd := by decide +kernel
  room_lt := by decide +kernel

/-- The arguments of a line. -/
def lineArgs (e : MmapEntry × ℕ) : List PrintArg :=
  [.word (BitVec.ofNat 64 e.2), .word e.1.base, .word e.1.length,
    .str (literal (getMemoryMapEntryType e.1.type))]

/-- `memory_map_print`. -/
def memoryMapPrint (build : Screen → Build) (s : Screen) (memmap : List MmapEntry) :
    Except Fault Screen := do
  let s ← memoryMapHeading.print build s []
  memmap.zipIdx.foldlM (fun s e => memoryMapLine.print build s (lineArgs e)) s

/-- What `memory_map_print` prints. -/
def memoryMapText (memmap : List MmapEntry) : List Byte :=
  memoryMapHeading.text [] ++ memmap.zipIdx.flatMap fun e => memoryMapLine.text (lineArgs e)

/-- What is said about an entry. -/
structure EntryReport where
  /-- Its place in the memory map. -/
  number : BitVec 64
  base : BitVec 64
  length : BitVec 64
  /-- The type, where it has a name. -/
  type : Option (BitVec 32)
  deriving DecidableEq

/-- The type with a name. -/
def typeNamed (name : List Byte) : Option (BitVec 32) :=
  (mmapTypes.find? fun t => chars t.2 = name).map Prod.fst

/-- An entry from the values of its line. -/
def entryReport : List Value → Option EntryReport
  | [.int number, .int base, .int length, .text name] =>
      some ⟨BitVec.ofInt 64 number, BitVec.ofInt 64 base, BitVec.ofInt 64 length, typeNamed name⟩
  | _ => none

/-- Read a printed memory map, and return what is behind it. -/
def readMemoryMap (text : List Byte) : Option (List EntryReport × List Byte) := do
  let (_, text) ← memoryMapHeading.read text
  let (lines, rest) := memoryMapLine.readMany text
  let entries ← lines.mapM entryReport
  return (entries, rest)

/-- What should be said about an entry and its number. -/
def MmapEntry.report (e : MmapEntry × ℕ) : EntryReport where
  number := BitVec.ofNat 64 e.2
  base := e.1.base
  length := e.1.length
  type := if e.1.type ∈ mmapTypes.map Prod.fst then some e.1.type else none

/-- What should be said about a memory map: its entries, numbered from 0. -/
def memoryMapReport (memmap : List MmapEntry) : List EntryReport :=
  memmap.zipIdx.map MmapEntry.report

/-! ## The clock -/

/-- The names of `weekday_str`. -/
def weekdayStrs : List String :=
  ["Sunday", "Monday", "Tuesday", "Wednesday", "Thursday", "Friday", "Saturday"]

/-- `weekday_str`. -/
def weekdayStr (weekdayId : ℕ) : String := weekdayStrs.getD weekdayId ""

/-- `%s, %04d-%02d-%02d %02d:%02d:%02d` and a line feed. -/
def dateTimeLine : Format where
  items := str :: stretch ", " ++ zeros 4 :: stretch "-" ++ zeros 2 ::
    stretch "-" ++ zeros 2 :: stretch " " ++ zeros 2 :: stretch ":" ++
    zeros 2 :: stretch ":" ++ zeros 2 :: stretch "\n"
  delimited := by decide +kernel
  fit := by decide +kernel
  textsEnd := by decide +kernel
  room_lt := by decide +kernel

/-- The arguments of the line. -/
def dateTimeArgs (d : DateTime) : List PrintArg :=
  .str (literal (weekdayStr d.weekday)) ::
    [d.year, d.month, d.day, d.hour, d.minute, d.second].map fun n => .word (BitVec.ofNat 64 n)

/-- A date and a time from the values of the line. -/
def readDateTime : List Value → Option DateTime
  | [.text name, .int year, .int month, .int day, .int hour, .int minute, .int second] =>
      some ⟨year.toNat, month.toNat, day.toNat, hour.toNat, minute.toNat, second.toNat,
        weekdayStrs.findIdx fun s => chars s = name⟩
  | _ => none

/-! ## Reading the memory map back -/

/-- A string literal without a NUL is passed as it is. -/
theorem literal_bytes {text : String} (h : Named (chars text)) :
    (literal text).bytes = chars text :=
  untilNul_eq_self fun b hb hzero => absurd (h.2 b hb).1 (by rw [hzero]; decide)

/-- Every type has a name that the report can end, and a type with a name of its own is
found by it. -/
theorem typeName_spec (type : BitVec 32) :
    Named (chars (getMemoryMapEntryType type)) ∧
      typeNamed (chars (getMemoryMapEntryType type)) =
        if type ∈ mmapTypes.map Prod.fst then some type else none := by
  by_cases hknown : type ∈ mmapTypes.map Prod.fst
  · have hall : ((mmapTypes.map Prod.fst).all fun t => Named (chars (getMemoryMapEntryType t)) ∧
        typeNamed (chars (getMemoryMapEntryType t)) = some t) = true := by decide +kernel
    rw [if_pos hknown]
    exact of_decide_eq_true (List.all_eq_true.mp hall type hknown)
  · have hname : getMemoryMapEntryType type = "Unknown" := by
      unfold getMemoryMapEntryType
      rw [List.lookup_eq_none_iff.mpr]
      · rfl
      · intro t ht
        exact bne_iff_ne.mpr fun heq => hknown (heq ▸ List.mem_map_of_mem ht)
    rw [if_neg hknown, hname]
    exact ⟨by decide +kernel, by decide +kernel⟩

theorem lineArgs_ok (e : MmapEntry × ℕ) : ∀ a ∈ lineArgs e, a.Ok := by
  have hname := (typeName_spec e.1.type).1
  have hok : (PrintArg.str (literal (getMemoryMapEntryType e.1.type))).Ok := by
    show Named (literal _).bytes
    rw [literal_bytes hname]
    exact hname
  simp only [lineArgs, List.forall_mem_cons]
  exact ⟨trivial, trivial, trivial, hok, fun a ha => absurd ha List.not_mem_nil⟩

theorem values_hex16 (env : Stdio.Env) (items : List Item) (ap : ℕ) :
    Stdio.itemsValues env (hex16 :: items) ap =
      .int (env.args ap).toNat :: Stdio.itemsValues env items (ap + 1) := by
  show Value.int ((env.args ap).setWidth 64).toNat :: _ = _
  rw [BitVec.setWidth_eq]

theorem values_str (env : Stdio.Env) (items : List Item) (ap : ℕ) :
    Stdio.itemsValues env (str :: items) ap =
      .text (env.strings (env.args ap)).bytes :: Stdio.itemsValues env items (ap + 1) := rfl

theorem values_nil (env : Stdio.Env) (text : String) (ap : ℕ) :
    Stdio.itemsValues env (stretch text) ap = [] := by
  rw [← List.append_nil (stretch text), itemsValues_stretch]
  rfl

theorem values_line (e : MmapEntry × ℕ) : memoryMapLine.values (lineArgs e) =
    [.int ((BitVec.ofNat 64 e.2).setWidth 64).toInt, .int e.1.base.toNat, .int e.1.length.toNat,
      .text (literal (getMemoryMapEntryType e.1.type)).bytes] := by
  unfold Format.values memoryMapLine
  simp only [List.append_assoc, List.cons_append]
  rw [Stdio.itemsValues, itemsValues_stretch, values_hex16, itemsValues_stretch, values_hex16,
    itemsValues_stretch, values_str, values_nil]
  rfl

theorem entryReport_line (e : MmapEntry × ℕ) :
    entryReport (memoryMapLine.values (lineArgs e)) = some (MmapEntry.report e) := by
  obtain ⟨hnamed, htype⟩ := typeName_spec e.1.type
  rw [values_line, literal_bytes hnamed]
  show some (EntryReport.mk _ _ _ (typeNamed _)) = some (EntryReport.mk _ _ _ _)
  rw [htype, BitVec.ofInt_toInt, BitVec.setWidth_eq, BitVec.ofInt_natCast, BitVec.ofInt_natCast,
    BitVec.ofNat_toNat, BitVec.ofNat_toNat, BitVec.setWidth_eq, BitVec.setWidth_eq]

theorem lines_ok (memmap : List MmapEntry) :
    ∀ args ∈ memmap.zipIdx.map lineArgs, ∀ a ∈ args, a.Ok := by
  intro args hargs
  obtain ⟨e, -, rfl⟩ := List.mem_map.mp hargs
  exact lineArgs_ok e

theorem memoryMapText_eq (memmap : List MmapEntry) : memoryMapText memmap =
    memoryMapHeading.text [] ++ (memmap.zipIdx.map lineArgs).flatMap memoryMapLine.text := by
  rw [List.flatMap_map]
  rfl

/-- There is nothing to check in an empty list of arguments. -/
theorem no_args_ok : ∀ a ∈ ([] : List PrintArg), a.Ok := fun _ ha => absurd ha List.not_mem_nil

/-- `memory_map_print` prints its text. -/
theorem memoryMapPrint_eq (build : Screen → Build) (s : Screen) (memmap : List MmapEntry) :
    memoryMapPrint build s memmap = .ok (runCalls s (textCalls (memoryMapText memmap))) := by
  unfold memoryMapPrint
  rw [memoryMapHeading.print_eq build s no_args_ok
      (memoryMapHeading.noOverflow (by decide +kernel) []), memoryMapText_eq, textCalls_append,
    runCalls_append, ← memoryMapLine.print_lines build _ (lines_ok memmap)
      fun args _ => memoryMapLine.noOverflow (by decide +kernel) args, List.foldlM_map]
  rfl

/-- The entries are read back from the text in front of anything that is no line. -/
theorem readMemoryMap_text (memmap : List MmapEntry) {rest : List Byte}
    (hrest : memoryMapLine.read rest = none) :
    readMemoryMap (memoryMapText memmap ++ rest) = some (memoryMapReport memmap, rest) := by
  have hsome : (entryReport ∘ memoryMapLine.values ∘ lineArgs) =
      fun e => some (MmapEntry.report e) := funext entryReport_line
  have hentries : ((memmap.zipIdx.map lineArgs).map memoryMapLine.values).mapM entryReport =
      some (memoryMapReport memmap) := by
    rw [List.map_map, List.mapM_map, hsome]
    exact List.mapM_pure
  unfold readMemoryMap
  rw [memoryMapText_eq, List.append_assoc, memoryMapHeading.read_text no_args_ok]
  show (memoryMapLine.readMany _).1.mapM entryReport >>= (fun entries =>
    some (entries, (memoryMapLine.readMany _).2)) = _
  rw [memoryMapLine.readMany_flatMap (List.cons_ne_nil _ _) (lines_ok memmap) hrest, hentries]
  rfl

/-- **The printed memory map reads back**: the number, the base, the length and the known
type of every entry. -/
theorem memory_map_reads_back (build : Screen → Build) (s : Screen)
    (memmap : List MmapEntry) :
    memoryMapPrint build s memmap = .ok (runCalls s (textCalls (memoryMapText memmap))) ∧
      readMemoryMap (memoryMapText memmap) = some (memoryMapReport memmap, []) := by
  have hread := @readMemoryMap_text memmap [] rfl
  rw [List.append_nil] at hread
  exact ⟨memoryMapPrint_eq build s memmap, hread⟩

/-! ## Reading the clock back -/

/-- A `DateTime` as `rtc_read` can return it: the fields are those of the struct. -/
structure InFields (d : DateTime) : Prop where
  year : d.year < 2 ^ 16
  month : d.month < 2 ^ 8
  day : d.day < 2 ^ 8
  hour : d.hour < 2 ^ 8
  minute : d.minute < 2 ^ 8
  second : d.second < 2 ^ 8
  weekday : d.weekday < 7

theorem values_zeros (env : Stdio.Env) (width : ℕ) (items : List Item)
    {ap n : ℕ} (harg : env.args ap = BitVec.ofNat 64 n) (hn : n < 2 ^ 16) :
    Stdio.itemsValues env (zeros width :: items) ap =
      .int n :: Stdio.itemsValues env items (ap + 1) := by
  show Value.int ((env.args ap).setWidth 32).toInt :: _ = _
  rw [harg, BitVec.toInt_eq_toNat_of_lt]
  · rw [BitVec.toNat_setWidth, BitVec.toNat_ofNat]
    have hmod : n % 2 ^ 64 % 2 ^ 32 = n := by omega
    rw [hmod]
  · rw [BitVec.toNat_setWidth, BitVec.toNat_ofNat]
    omega

/-- The name of a weekday is one that the report can end, and is found by its number. -/
theorem weekdayStr_spec {w : ℕ} (h : w < 7) :
    Named (chars (weekdayStr w)) ∧
      (weekdayStrs.findIdx fun s => chars s = chars (weekdayStr w)) = w := by
  have hall : ∀ w < 7, Named (chars (weekdayStr w)) ∧
      (weekdayStrs.findIdx fun s => chars s = chars (weekdayStr w)) = w := by decide +kernel
  exact hall w h

theorem dateTimeArgs_ok {d : DateTime} (h : d.weekday < 7) : ∀ a ∈ dateTimeArgs d, a.Ok := by
  have hname := (weekdayStr_spec h).1
  refine List.forall_mem_cons.mpr ⟨?_, fun a ha => ?_⟩
  · show Named (literal _).bytes
    rw [literal_bytes hname]
    exact hname
  · obtain ⟨n, -, rfl⟩ := List.mem_map.mp ha
    trivial

theorem values_dateTime {d : DateTime} (h : InFields d) :
    dateTimeLine.values (dateTimeArgs d) =
      .text (literal (weekdayStr d.weekday)).bytes ::
        [d.year, d.month, d.day, d.hour, d.minute, d.second].map fun n => .int (n : ℤ) := by
  obtain ⟨hyear, hmonth, hday, hhour, hminute, hsecond, -⟩ := h
  unfold Format.values dateTimeLine
  simp only [List.append_assoc, List.cons_append]
  rw [values_str, itemsValues_stretch, values_zeros _ _ _ rfl hyear, itemsValues_stretch,
    values_zeros _ _ _ rfl (hmonth.trans (by decide)), itemsValues_stretch,
    values_zeros _ _ _ rfl (hday.trans (by decide)), itemsValues_stretch,
    values_zeros _ _ _ rfl (hhour.trans (by decide)), itemsValues_stretch,
    values_zeros _ _ _ rfl (hminute.trans (by decide)), itemsValues_stretch,
    values_zeros _ _ _ rfl (hsecond.trans (by decide)), values_nil]
  rfl

/-- No field is `INT_MIN`. -/
theorem dateTimeLine_noOverflow {d : DateTime} (h : InFields d) :
    dateTimeLine.NoOverflow (dateTimeArgs d) := by
  refine noOverflow_of_values fun hmin => ?_
  change Value.int (-2 ^ 31) ∈ dateTimeLine.values (dateTimeArgs d) at hmin
  rw [values_dateTime h] at hmin
  obtain ⟨n, -, hn⟩ := List.mem_map.mp ((List.mem_cons.mp hmin).resolve_left nofun)
  have hvalue := Value.int.inj hn
  omega

/-- Every `DateTime` of `rtc_read` keeps to its fields. -/
theorem rtcRead_inFields {chip : Cmos.Chip} {fuel : ℕ} {d : DateTime}
    (h : Cmos.rtcRead chip fuel = some d) : InFields d := by
  obtain ⟨t, -, rfl⟩ := Option.map_eq_some_iff.mp h
  have hbyte (n : ℕ) : u8 n < 2 ^ 8 := Nat.mod_lt _ (by decide)
  unfold Cmos.decode Cmos.dateTime Cmos.to24Hour Cmos.toBinary Cmos.rtcReadRegisters
    Cmos.rtcReadRegister
  constructor
  · exact Nat.mod_lt _ (by decide)
  · dsimp only; split_ifs <;> exact hbyte _
  · dsimp only; split_ifs <;> exact hbyte _
  · dsimp only; split_ifs <;> exact hbyte _
  · dsimp only; split_ifs <;> exact hbyte _
  · dsimp only; split_ifs <;> exact hbyte _
  · have hweek (n : ℕ) : u8 (n % 7) < 7 :=
      (Nat.mod_le _ _).trans_lt (Nat.mod_lt _ (by decide))
    exact hweek _

/-- The date and the time are read back from the text in front of anything. -/
theorem readDateTime_text {d : DateTime} (h : InFields d) (rest : List Byte) :
    ∃ values, dateTimeLine.read (dateTimeLine.text (dateTimeArgs d) ++ rest) =
      some (values, rest) ∧ readDateTime values = some d := by
  obtain ⟨hnamed, hweekday⟩ := weekdayStr_spec h.weekday
  refine ⟨_, dateTimeLine.read_text (dateTimeArgs_ok h.weekday) rest, ?_⟩
  rw [values_dateTime h, literal_bytes hnamed]
  show some (DateTime.mk _ _ _ _ _ _ (weekdayStrs.findIdx _)) = some d
  rw [hweekday]
  rfl

end OsdevX64.Boot
