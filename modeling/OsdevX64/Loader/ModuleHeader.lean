import OsdevX64.Kernel.MemoryMap
import OsdevX64.Lib.ByteMemory

/-!
# Module headers

`kernel/module.c` and the layout of `ModuleHeader` in `kernel/module.h`.  A
header is not a value but an address: every field is loaded from the memory of
the machine, and nothing is compared with the length of the memory-map entry
that the header is in.

Beside its result each function returns its `Use`s: the loads of header fields
and section entries, the start of every string that is handed on, and, as
`failedLookup`, each `->Start` of a null pointer.  Memory is the same throughout;
what a started module does to it is left out.
-/

namespace OsdevX64.Loader

open ByteMemory Kernel

/-- The memory of the machine. -/
abbrev Mem := Memory (BitVec 64)

/-- `MODULE_MAGIC`. -/
def moduleMagic : BitVec 32 := 0x47545441

/-- `MODULE_TYPE_EXECUTABLE`. -/
def moduleTypeExecutable : BitVec 32 := 1

/-- `MODULE_SECTION_NAME`. -/
def moduleSectionName : BitVec 32 := 0

/-- `MODULE_SECTION_AUTHOR`. -/
def moduleSectionAuthor : BitVec 32 := 1

/-- `MODULE_SECTION_DESCRIPTION`. -/
def moduleSectionDescription : BitVec 32 := 2

/-- `MODULE_SECTION_SIGNAL_HANDLER`. -/
def moduleSectionSignalHandler : BitVec 32 := 5

/-- The bytes of `"Shell"`. -/
def shellName : List Byte := [0x53, 0x68, 0x65, 0x6C, 0x6C]

/-- What is done with memory. -/
inductive Use
  /-- The bytes from `a` on are loaded. -/
  | load (a : BitVec 64) (bytes : ℕ)
  /-- The result of a lookup is used that found no section. -/
  | failedLookup
  deriving DecidableEq, Repr

/-! ## Fields -/

/-- Load a `uint32_t`. -/
def load32 (mem : Mem) (a : BitVec 64) : BitVec 32 := BitVec.ofNat 32 (loadLE mem a 4)

/-- Load a `uint64_t`. -/
def load64 (mem : Mem) (a : BitVec 64) : BitVec 64 := BitVec.ofNat 64 (loadLE mem a 8)

/-- The address `off` bytes into a header. -/
def fieldAddr (header : BitVec 64) (off : ℕ) : BitVec 64 := header + BitVec.ofNat 64 off

/-- `Magic`. -/
def magic (mem : Mem) (header : BitVec 64) : BitVec 32 := load32 mem (fieldAddr header 0)

/-- `Type`. -/
def headerType (mem : Mem) (header : BitVec 64) : BitVec 32 := load32 mem (fieldAddr header 4)

/-- `Id`. -/
def headerId (mem : Mem) (header : BitVec 64) : BitVec 32 := load32 mem (fieldAddr header 8)

/-- `NumSections`. -/
def numSections (mem : Mem) (header : BitVec 64) : BitVec 32 := load32 mem (fieldAddr header 12)

/-- The offset of `Sections[i]`. -/
def sectionOffset (i : ℕ) : ℕ := 16 + 16 * i

/-- `Sections[i].Type`. -/
def sectionType (mem : Mem) (header : BitVec 64) (i : ℕ) : BitVec 32 :=
  load32 mem (fieldAddr header (sectionOffset i))

/-- `Sections[i].Start`. -/
def sectionStart (mem : Mem) (header : BitVec 64) (i : ℕ) : BitVec 64 :=
  load64 mem (fieldAddr header (sectionOffset i + 8))

/-! ## Sections -/

/-- The loop of `get_section` from section `i` on, with `n` sections left. -/
def sectionLoop (mem : Mem) (header : BitVec 64) (type : BitVec 32) : ℕ → ℕ → Option ℕ × List Use
  | 0, _ => (none, [])
  | n + 1, i =>
      let use := Use.load (fieldAddr header (sectionOffset i)) 4
      if sectionType mem header i = type then (some i, [use])
      else
        let (found, uses) := sectionLoop mem header type n (i + 1)
        (found, use :: uses)

/-- `get_section`: the index of the section, or `none` for a null pointer. -/
def getSection (mem : Mem) (header : BitVec 64) (type : BitVec 32) : Option ℕ × List Use :=
  let (found, uses) := sectionLoop mem header type (numSections mem header).toNat 0
  (found, .load (fieldAddr header 12) 4 :: uses)

/-- `get_section(header, type)->Start`, also from the null pointer. -/
def getStart (mem : Mem) (header : BitVec 64) (type : BitVec 32) : BitVec 64 × List Use :=
  match getSection mem header type with
  | (some i, uses) =>
      (sectionStart mem header i, uses ++ [.load (fieldAddr header (sectionOffset i + 8)) 8])
  -- `NULL->Start` is the load at address 8
  | (none, uses) => (load64 mem 8, uses ++ [.failedLookup])

/-- `get_section_str`. -/
def getSectionStr (mem : Mem) (header : BitVec 64) (type : BitVec 32) : BitVec 64 × List Use :=
  let (start, uses) := getStart mem header type
  (header + start, uses)

/-- `strcmp` of the string at `s1` with a literal: it stops where either ends. -/
def strcmp (mem : Mem) (s1 : BitVec 64) : List Byte → ℕ
  | [] => 0
  | c :: s2 =>
      -- where `s1` ends first it is a prefix, and counts as equal
      if mem s1 = 0 then 0
      else if mem s1 ≠ c then 1
      else strcmp mem (s1 + 1) s2

/-! ## `module_list` and `module_init` -/

/-- What `module_list` prints about a module. -/
structure Listing where
  id : BitVec 32
  type : BitVec 32
  numSections : BitVec 32
  address : BitVec 64
  size : BitVec 64
  author : BitVec 64
  name : BitVec 64
  description : BitVec 64
  deriving DecidableEq, Repr

/-- The body of the loop of `module_list`. -/
def listEntry (mem : Mem) (cur : MmapEntry) : Option Listing × List Use :=
  if cur.type ≠ mmapKernelAndModules then (none, [])
  else
    let header := cur.base
    let seen := [Use.load (fieldAddr header 0) 4]
    if magic mem header ≠ moduleMagic then (none, seen)
    else
      let fields := [Use.load (fieldAddr header 8) 4, .load (fieldAddr header 4) 4,
        .load (fieldAddr header 12) 4]
      let (author, authorUses) := getSectionStr mem header moduleSectionAuthor
      let (name, nameUses) := getSectionStr mem header moduleSectionName
      let (description, descriptionUses) := getSectionStr mem header moduleSectionDescription
      (some
        { id := headerId mem header
          type := headerType mem header
          numSections := numSections mem header
          address := cur.base
          size := cur.length
          author := author
          name := name
          description := description },
        seen ++ fields ++ (authorUses ++ [.load author 1]) ++ (nameUses ++ [.load name 1]) ++
          (descriptionUses ++ [.load description 1]))

/-- The body of the loop of `module_init`: the address of the signal handler that
is made current and called with INIT, if any. -/
def initEntry (mem : Mem) (cur : MmapEntry) : Option (BitVec 64) × List Use :=
  if cur.type ≠ mmapKernelAndModules then (none, [])
  else
    let header := cur.base
    let seen := [Use.load (fieldAddr header 0) 4]
    if magic mem header ≠ moduleMagic then (none, seen)
    else
      let fields := [Use.load (fieldAddr header 4) 4]
      if headerType mem header ≠ moduleTypeExecutable then (none, seen ++ fields)
      else
        let (start, startUses) := getStart mem header moduleSectionSignalHandler
        let fnAddr := header + start
        let (name, nameUses) := getSectionStr mem header moduleSectionName
        (if strcmp mem name shellName = 0 then some fnAddr else none,
          seen ++ fields ++ startUses ++ (nameUses ++ [.load name 1]))

/-- The lines of `module_list`. -/
def moduleList (mem : Mem) (memmap : List MmapEntry) : List Listing :=
  memmap.filterMap fun cur => (listEntry mem cur).1

/-- The signal handlers that `module_init` starts, in order. -/
def moduleInit (mem : Mem) (memmap : List MmapEntry) : List (BitVec 64) :=
  memmap.filterMap fun cur => (initEntry mem cur).1

end OsdevX64.Loader
