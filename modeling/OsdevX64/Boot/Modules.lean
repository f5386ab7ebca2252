import OsdevX64.Boot.Reports
import OsdevX64.Loader.ModuleHeader

/-!
# The module list on the screen

`module_list` of `kernel/module.c` prints the header of every module and the three strings
that its sections lead to.  **The list is read back**: identifier, type, number of sections,
place and size of every module, and its author, name and description
(`readModuleList_text`), where these are printable and fit into the array of `printf`, and
no number is `INT_MIN`.
-/

namespace OsdevX64.Boot

open ByteMemory Kernel Loader Console
open Stdio (Build CString Fault Item Value ch integerDirective)

/-! ## The source -/

/-- The heading. -/
def moduleHeading : Format := message "Module list:\n" (by decide +kernel)

/-- `%d`. -/
def dec : Item := .directive intDirective

/-- `%016lX`. -/
def hex16Upper : Item := .directive (integerDirective [.zero] (.digits 1 [6]) .l .X)

/-- The first `printf` for a module. -/
def moduleLine : Format where
  items :=
    stretch "Module Id: " ++ dec :: stretch "; Type: " ++ dec :: stretch "; NumSections: " ++
    dec :: stretch ";\n" ++
    stretch "    Address = " ++ hex16Upper :: stretch "; Size: " ++ hex16Upper :: stretch "\n"
  delimited := by decide +kernel
  fit := by decide +kernel
  textsEnd := by decide +kernel
  room_lt := by decide +kernel

/-- The second `printf` for a module. -/
def moduleStrings : Format where
  items := stretch "Author: " ++ str :: stretch "\nName: " ++ str ::
    stretch "\nDescription: " ++ str :: stretch "\n"
  delimited := by decide +kernel
  fit := by decide +kernel
  textsEnd := by decide +kernel
  room_lt := by decide +kernel

/-- The string at an address. -/
def stringIn (mem : Mem) (a : BitVec 64) : CString :=
  cStringAt (fun i => mem (fieldAddr a i)) (2 ^ 64) 0

/-- The arguments of the first `printf`. -/
def moduleArgs (l : Listing) : List PrintArg :=
  [.word (l.id.setWidth 64), .word (l.type.setWidth 64), .word (l.numSections.setWidth 64),
    .word l.address, .word l.size]

/-- The arguments of the second `printf`. -/
def stringArgs (mem : Mem) (l : Listing) : List PrintArg :=
  [.str (stringIn mem l.author), .str (stringIn mem l.name), .str (stringIn mem l.description)]

/-- The body of the loop of `module_list` for a module. -/
def modulePrint (mem : Mem) (build : Screen → Build) (s : Screen) (l : Listing) :
    Except Fault Screen := do
  let s ← moduleLine.print build s (moduleArgs l)
  moduleStrings.print build s (stringArgs mem l)

/-- `module_list`. -/
def moduleListPrint (build : Screen → Build) (s : Screen) (mem : Mem)
    (memmap : List MmapEntry) : Except Fault Screen := do
  let s ← moduleHeading.print build s []
  (moduleList mem memmap).foldlM (modulePrint mem build) s

/-! ## Reading the list -/

/-- What is printed about a module. -/
def moduleText (mem : Mem) (l : Listing) : List Byte :=
  moduleLine.text (moduleArgs l) ++ moduleStrings.text (stringArgs mem l)

/-- What `module_list` prints. -/
def moduleListText (mem : Mem) (memmap : List MmapEntry) : List Byte :=
  moduleHeading.text [] ++ (moduleList mem memmap).flatMap (moduleText mem)

/-- What is said about a module. -/
structure ModuleReport where
  id : BitVec 32
  type : BitVec 32
  numSections : BitVec 32
  address : BitVec 64
  size : BitVec 64
  author : List Byte
  name : List Byte
  description : List Byte
  deriving DecidableEq

/-- A module from the values of its lines. -/
def moduleReport : List Value → Option ModuleReport
  | [.int id, .int type, .int numSections, .int address, .int size, .text author, .text name,
      .text description] =>
      some ⟨BitVec.ofInt 32 id, BitVec.ofInt 32 type, BitVec.ofInt 32 numSections,
        BitVec.ofInt 64 address, BitVec.ofInt 64 size, author, name, description⟩
  | _ => none

/-- Read the lines of one module. -/
def readModule (text : List Byte) : Option (ModuleReport × List Byte) := do
  let (numbers, text) ← moduleLine.read text
  let (strings, text) ← moduleStrings.read text
  let report ← moduleReport (numbers ++ strings)
  return (report, text)

/-- Read a printed module list, and return what is behind it. -/
def readModuleList (text : List Byte) : Option (List ModuleReport × List Byte) := do
  let (_, text) ← moduleHeading.read text
  return Repeat.many readModule text

/-- What should be said about a module. -/
def Listing.report (mem : Mem) (l : Listing) : ModuleReport where
  id := l.id
  type := l.type
  numSections := l.numSections
  address := l.address
  size := l.size
  author := (stringIn mem l.author).bytes
  name := (stringIn mem l.name).bytes
  description := (stringIn mem l.description).bytes

/-! ## Reading it back -/

/-- The strings of a module are printable, and fit into the array of `printf`; what is
printed as an `int` is not `INT_MIN`. -/
structure Described (mem : Mem) (l : Listing) : Prop where
  numbers : ∀ v ∈ [l.id, l.type, l.numSections], v ≠ 0x80000000
  printable : ∀ a ∈ [l.author, l.name, l.description], ∀ b ∈ (stringIn mem a).bytes, IsPrint b
  fits : (moduleStrings.text (stringArgs mem l)).length < printfBufferSize

theorem moduleArgs_ok (l : Listing) : ∀ a ∈ moduleArgs l, a.Ok := by
  simp only [moduleArgs, List.forall_mem_cons]
  exact ⟨trivial, trivial, trivial, trivial, trivial, fun a ha => absurd ha List.not_mem_nil⟩

theorem values_dec (env : Stdio.Env) (items : List Item) {ap : ℕ} {v : BitVec 32}
    (harg : env.args ap = v.setWidth 64) :
    Stdio.itemsValues env (dec :: items) ap =
      .int v.toInt :: Stdio.itemsValues env items (ap + 1) := by
  show Value.int ((env.args ap).setWidth 32).toInt :: _ = _
  rw [harg, BitVec.setWidth_setWidth_of_le v (by decide), BitVec.setWidth_eq]

theorem values_hex16Upper (env : Stdio.Env) (items : List Item) (ap : ℕ) :
    Stdio.itemsValues env (hex16Upper :: items) ap =
      .int (env.args ap).toNat :: Stdio.itemsValues env items (ap + 1) := by
  show Value.int ((env.args ap).setWidth 64).toNat :: _ = _
  rw [BitVec.setWidth_eq]

theorem values_module (l : Listing) : moduleLine.values (moduleArgs l) =
    [.int l.id.toInt, .int l.type.toInt, .int l.numSections.toInt, .int l.address.toNat,
      .int l.size.toNat] := by
  unfold Format.values moduleLine
  simp only [List.append_assoc, List.cons_append]
  rw [itemsValues_stretch, values_dec _ _ rfl, itemsValues_stretch, values_dec _ _ rfl,
    itemsValues_stretch, values_dec _ _ rfl, itemsValues_stretch, itemsValues_stretch,
    values_hex16Upper, itemsValues_stretch, values_hex16Upper, values_nil]
  rfl

theorem Described.moduleLine_noOverflow {mem : Mem} {l : Listing} (h : Described mem l) :
    moduleLine.NoOverflow (moduleArgs l) := by
  refine noOverflow_of_values fun hmin => ?_
  change Value.int (-2 ^ 31) ∈ moduleLine.values (moduleArgs l) at hmin
  rw [values_module] at hmin
  have hnumber : ∀ v ∈ [l.id, l.type, l.numSections], v.toInt ≠ -2 ^ 31 := by
    intro v hv heq
    exact h.numbers v hv (BitVec.eq_of_toInt_eq (heq.trans (by decide)))
  simp only [List.mem_cons, Value.int.injEq, List.not_mem_nil, or_false] at hmin
  rcases hmin with hid | htype | hsections | haddress | hsize
  · exact hnumber l.id (by simp) hid.symm
  · exact hnumber l.type (by simp) htype.symm
  · exact hnumber l.numSections (by simp) hsections.symm
  · omega
  · omega

theorem values_strings (mem : Mem) (l : Listing) : moduleStrings.values (stringArgs mem l) =
    [.text (stringIn mem l.author).bytes, .text (stringIn mem l.name).bytes,
      .text (stringIn mem l.description).bytes] := by
  unfold Format.values moduleStrings
  simp only [List.append_assoc, List.cons_append]
  rw [itemsValues_stretch, values_str, itemsValues_stretch, values_str, itemsValues_stretch,
    values_str, values_nil]
  rfl

theorem Described.printEnv {mem : Mem} {l : Listing} (h : Described mem l) (build : Build)
    (a : BitVec 64) :
    ∀ b ∈ ((printEnv build (stringArgs mem l)).strings a).bytes, IsPrint b := by
  refine printEnv_strings (P := fun bytes => ∀ b ∈ bytes, IsPrint b)
    (fun b hb => absurd hb List.not_mem_nil) (fun text htext => ?_) build a
  obtain ⟨a, ha, rfl⟩ : ∃ a ∈ [l.author, l.name, l.description], text = stringIn mem a := by
    simpa [stringArgs] using htext
  exact h.printable a ha

theorem Described.plain {mem : Mem} {l : Listing} (h : Described mem l) :
    Plain (moduleStrings.text (stringArgs mem l)) where
  length_lt := h.fits
  shown b hb := Or.inr (itemsPlain_prints (h.printEnv _) moduleStrings.fit 0 b hb)

theorem Described.stringsEnd {mem : Mem} {l : Listing} (h : Described mem l) :
    Stdio.StringsEnd (Console.printEnv ⟨fun _ => 0, 0⟩ (stringArgs mem l)) moduleStrings.items 0 :=
  stringsEnd_of_lines (h.printEnv _) (by decide +kernel) (h.fits.trans (by decide))

/-- The lines of a module are printed. -/
theorem modulePrint_eq {mem : Mem} {l : Listing} (h : Described mem l)
    (build : Screen → Build) (s : Screen) :
    modulePrint mem build s l = .ok (runCalls s (textCalls (moduleText mem l))) := by
  unfold modulePrint moduleText
  rw [moduleLine.print_eq build s (moduleArgs_ok l) h.moduleLine_noOverflow, Stdio.ok_bind,
    moduleStrings.print_of_plain build _ h.stringsEnd
      (moduleStrings.noOverflow (by decide +kernel) _) h.plain, textCalls_append, runCalls_append]

/-- **`module_list` prints its text.** -/
theorem moduleListPrint_eq {mem : Mem} {memmap : List MmapEntry}
    (h : ∀ l ∈ moduleList mem memmap, Described mem l) (build : Screen → Build) (s : Screen) :
    moduleListPrint build s mem memmap =
      .ok (runCalls s (textCalls (moduleListText mem memmap))) := by
  have hmodules (listings : List Listing) (hl : ∀ l ∈ listings, Described mem l) (s : Screen) :
      listings.foldlM (modulePrint mem build) s =
        .ok (runCalls s (textCalls (listings.flatMap (moduleText mem)))) := by
    induction listings generalizing s with
    | nil => rfl
    | cons l listings ih =>
        obtain ⟨hfirst, hrest⟩ := List.forall_mem_cons.mp hl
        rw [List.foldlM_cons, modulePrint_eq hfirst, List.flatMap_cons, textCalls_append,
          runCalls_append]
        exact ih hrest _
  unfold moduleListPrint moduleListText
  rw [moduleHeading.print_eq build s no_args_ok (message_noOverflow _ _), Stdio.ok_bind,
    hmodules _ h, textCalls_append, runCalls_append]

/-- The lines of a module are read back. -/
theorem readModule_text {mem : Mem} {l : Listing} (h : Described mem l) (rest : List Byte) :
    readModule (moduleText mem l ++ rest) = some (Listing.report mem l, rest) := by
  unfold readModule moduleText
  rw [List.append_assoc]
  simp only [moduleLine.read_text (moduleArgs_ok l), moduleStrings.read_of_ends h.stringsEnd,
    values_module, values_strings, Option.bind_eq_bind, Option.bind_some]
  show some (ModuleReport.mk _ _ _ _ _ _ _ _, rest) = _
  rw [BitVec.ofInt_toInt, BitVec.ofInt_toInt, BitVec.ofInt_toInt, BitVec.ofInt_natCast,
    BitVec.ofInt_natCast, BitVec.ofNat_toNat, BitVec.ofNat_toNat, BitVec.setWidth_eq,
    BitVec.setWidth_eq]
  rfl

/-- **The list is read back** in front of anything that is no module. -/
theorem readModuleList_text {mem : Mem} {memmap : List MmapEntry}
    (h : ∀ l ∈ moduleList mem memmap, Described mem l) {rest : List Byte}
    (hrest : readModule rest = none) :
    readModuleList (moduleListText mem memmap ++ rest) =
      some ((moduleList mem memmap).map (Listing.report mem), rest) := by
  have hmany := Repeat.many_flatMap (fun l hl => readModule_text (h l hl))
    (fun l _ => List.append_ne_nil_of_left_ne_nil
      (moduleLine.text_ne_nil (List.cons_ne_nil _ _) (moduleArgs l)) _) hrest
  unfold readModuleList moduleListText
  rw [List.append_assoc, moduleHeading.read_text no_args_ok]
  exact congrArg some hmany

end OsdevX64.Boot
