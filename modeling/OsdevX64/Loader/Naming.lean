import OsdevX64.CLib.StringOps
import OsdevX64.Loader.Parsing

/-!
# Which modules `module_init` starts

`module_init` compares the NAME of an executable with `"Shell"` through
`strcmp`, which does not tell a string from one it begins.  So beside the
modules named `"Shell"` it starts those whose names are proper prefixes of it,
the empty name among them, and those whose names continue it; and **it is
exactly these that a memory map must not have**.
-/

namespace OsdevX64.Loader

open ByteMemory Kernel CLib

/-- An entry of the memory map with a module of type executable. -/
def IsExecutable (mem : Mem) (cur : MmapEntry) : Prop :=
  cur.type = mmapKernelAndModules ∧ magic mem cur.base = moduleMagic ∧
    headerType mem cur.base = moduleTypeExecutable

instance (mem : Mem) (cur : MmapEntry) : Decidable (IsExecutable mem cur) :=
  inferInstanceAs (Decidable (cur.type = mmapKernelAndModules ∧ magic mem cur.base = moduleMagic ∧
    headerType mem cur.base = moduleTypeExecutable))

/-- The NAME section of the module holds a string. -/
def NameIs (mem : Mem) (cur : MmapEntry) (name : List Byte) : Prop :=
  StringAt mem (getSectionStr mem cur.base moduleSectionName).1 name

/-- What a module header promises: its sections are there and its name is a
string. -/
structure WellFormed (mem : Mem) (cur : MmapEntry) : Prop where
  header : HeaderOk mem cur
  name : cur.type = mmapKernelAndModules → magic mem cur.base = moduleMagic →
    ∃ name, NameIs mem cur name

/-- The modules whose signal handlers `module_init` makes current and sends
INIT. -/
def startedModules (mem : Mem) (memmap : List MmapEntry) : List MmapEntry :=
  memmap.filter fun cur => (initEntry mem cur).1.isSome

/-- The signal handler of a module. -/
def signalHandler (mem : Mem) (cur : MmapEntry) : BitVec 64 :=
  cur.base + (getStart mem cur.base moduleSectionSignalHandler).1

/-! ## The comparison with a literal -/

/-- `strcmp` against a literal is `strcmp` against a copy of it in memory. -/
theorem strcmp_literal {mem : Mem} {s1 s2 : BitVec 64} {lit : List Byte} {fuel : ℕ}
    (hlit : StringAt mem s2 lit) (hfuel : lit.length < fuel) :
    CLib.strcmp mem s1 s2 fuel = some (Loader.strcmp mem s1 lit) := by
  induction lit generalizing s1 s2 fuel with
  | nil =>
      obtain ⟨fuel, rfl⟩ := Nat.exists_eq_succ_of_ne_zero (Nat.ne_zero_of_lt hfuel)
      rw [CLib.strcmp, if_neg (fun h => h.2 hlit), Loader.strcmp]
  | cons c lit ih =>
      obtain ⟨fuel, rfl⟩ := Nat.exists_eq_succ_of_ne_zero (Nat.ne_zero_of_lt hfuel)
      rw [CLib.strcmp, Loader.strcmp, hlit.1]
      by_cases hend : mem s1 = 0
      · rw [if_neg (fun h => h.1 hend), if_pos hend]
      · rw [if_pos ⟨hend, hlit.2.1⟩, if_neg hend]
        by_cases hc : mem s1 = c
        · rw [if_neg (not_not_intro hc), if_neg (not_not_intro hc)]
          exact ih hlit.2.2 (Nat.lt_of_succ_lt_succ hfuel)
        · rw [if_pos hc, if_pos hc]

/-- `strcmp` of a string with a literal. -/
theorem strcmp_eq_zero {mem : Mem} {s1 : BitVec 64} {a lit : List Byte} (ha : StringAt mem s1 a)
    (hlit : ∀ c ∈ lit, c ≠ 0) : Loader.strcmp mem s1 lit = 0 ↔ Comparable a lit := by
  induction lit generalizing s1 a with
  | nil => exact iff_of_true rfl (.inr List.nil_prefix)
  | cons c lit ih =>
      rw [Loader.strcmp]
      cases a with
      | nil =>
          have hend : mem s1 = 0 := ha
          rw [if_pos hend]
          exact iff_of_true rfl (.inl List.nil_prefix)
      | cons d a =>
          rw [if_neg (ha.1 ▸ ha.2.1), ha.1, comparable_cons]
          by_cases hdc : d = c
          · have hrest : ∀ x ∈ lit, x ≠ 0 := fun x hx => hlit x (List.mem_cons_of_mem _ hx)
            rw [if_neg (not_not_intro hdc), ih ha.2.2 hrest]
            exact (and_iff_right hdc).symm
          · rw [if_pos hdc]
            exact iff_of_false (by simp) fun h => hdc h.1

/-! ## One entry -/

/-- The name of a module compares equal to `"Shell"`. -/
def ComparesEqual (mem : Mem) (cur : MmapEntry) : Prop :=
  Loader.strcmp mem (getSectionStr mem cur.base moduleSectionName).1 shellName = 0

instance (mem : Mem) (cur : MmapEntry) : Decidable (ComparesEqual mem cur) :=
  inferInstanceAs (Decidable (_ = _))

/-- An entry is started exactly if it is an executable whose name compares equal. -/
theorem initEntry_fst (mem : Mem) (cur : MmapEntry) :
    (initEntry mem cur).1 =
      if IsExecutable mem cur ∧ ComparesEqual mem cur then some (signalHandler mem cur)
      else none := by
  unfold initEntry IsExecutable ComparesEqual
  dsimp only
  by_cases htype : cur.type = mmapKernelAndModules
  · by_cases hmagic : magic mem cur.base = moduleMagic
    · by_cases hexec : headerType mem cur.base = moduleTypeExecutable
      · rw [if_neg (not_not_intro htype), if_neg (not_not_intro hmagic),
          if_neg (not_not_intro hexec)]
        simp only [htype, hmagic, hexec, true_and]
        rfl
      · rw [if_neg (not_not_intro htype), if_neg (not_not_intro hmagic), if_pos hexec,
          if_neg (fun h => hexec h.1.2.2)]
    · rw [if_neg (not_not_intro htype), if_pos hmagic, if_neg (fun h => hmagic h.1.2.1)]
  · rw [if_pos htype, if_neg (fun h => htype h.1.1)]

/-- `module_init` starts the handlers of the started modules. -/
theorem moduleInit_eq (mem : Mem) (memmap : List MmapEntry) :
    moduleInit mem memmap = (startedModules mem memmap).map (signalHandler mem) := by
  unfold moduleInit startedModules
  induction memmap with
  | nil => rfl
  | cons cur memmap ih =>
      by_cases h : IsExecutable mem cur ∧ ComparesEqual mem cur
      · have hsome := (initEntry_fst mem cur).trans (if_pos h)
        rw [List.filterMap_cons, List.filter_cons, hsome, ih]
        rfl
      · have hnone := (initEntry_fst mem cur).trans (if_neg h)
        rw [List.filterMap_cons, List.filter_cons, hnone, ih]
        rfl

theorem startedModules_isExecutable {mem : Mem} {memmap : List MmapEntry} {cur : MmapEntry}
    (h : cur ∈ startedModules mem memmap) : IsExecutable mem cur := by
  have hsome := (List.mem_filter.mp h).2
  rw [initEntry_fst] at hsome
  by_contra hexec
  rw [if_neg fun hboth => hexec hboth.1] at hsome
  exact absurd hsome (by simp)

/-- **The started modules** are the executables whose names begin `"Shell"` or
continue it. -/
theorem mem_startedModules {mem : Mem} {memmap : List MmapEntry} {cur : MmapEntry}
    {name : List Byte} (hname : NameIs mem cur name) :
    cur ∈ startedModules mem memmap ↔
      cur ∈ memmap ∧ IsExecutable mem cur ∧ Comparable name shellName := by
  have hcompare : ComparesEqual mem cur ↔ Comparable name shellName :=
    strcmp_eq_zero hname (by decide)
  rw [startedModules, List.mem_filter, initEntry_fst, ← hcompare]
  by_cases h : IsExecutable mem cur ∧ ComparesEqual mem cur
  · rw [if_pos h]
    exact and_congr_right fun _ => iff_of_true rfl h
  · rw [if_neg h]
    exact and_congr_right fun _ => iff_of_false (by simp) h

/-! ## Exact names -/

/-- Every module started is an executable with the name `"Shell"`. -/
def StartsShellsOnly (mem : Mem) (memmap : List MmapEntry) : Prop :=
  ∀ cur ∈ startedModules mem memmap, IsExecutable mem cur ∧ NameIs mem cur shellName

/-- No executable has a name that is confused with `"Shell"`. -/
def NoConfusedName (mem : Mem) (memmap : List MmapEntry) : Prop :=
  ∀ cur ∈ memmap, IsExecutable mem cur → ∀ name, NameIs mem cur name → ¬ Confused name shellName

/-- **Only shells are started exactly when no executable has a name that is
confused with theirs.** -/
theorem startsShellsOnly_iff {mem : Mem} {memmap : List MmapEntry}
    (hwell : ∀ cur ∈ memmap, WellFormed mem cur) :
    StartsShellsOnly mem memmap ↔ NoConfusedName mem memmap := by
  constructor
  · intro honly cur hcur hexec name hname hconfused
    have hstarted := (mem_startedModules hname).mpr ⟨hcur, hexec, hconfused.2⟩
    have hshell := (honly cur hstarted).2
    exact hconfused.1 (hname.unique hshell)
  · intro hnone cur hstarted
    obtain ⟨htype, hmagic, -⟩ := startedModules_isExecutable hstarted
    obtain ⟨name, hname⟩ := (hwell cur (List.mem_of_mem_filter hstarted)).name htype hmagic
    obtain ⟨hcur, hexec, hcomparable⟩ := (mem_startedModules hname).mp hstarted
    rcases comparable_iff.mp hcomparable with rfl | hconfused
    · exact ⟨hexec, hname⟩
    · exact absurd hconfused (hnone cur hcur hexec name hname)

/-- **`strcmp` decides equality, and `module_init` goes by exact names, exactly
away from proper prefixes.**  Strings are told apart unless one is a proper
prefix of the other; well-formed modules other than shells are left alone unless
the name of an executable is a proper prefix of `"Shell"` or continues it. -/
theorem exact_names_iff {mem strings : Mem} {s1 s2 : BitVec 64} {a b : List Byte} {fuel : ℕ}
    {memmap : List MmapEntry} (ha : StringAt strings s1 a) (hb : StringAt strings s2 b)
    (hfuel : a.length < fuel) (hwell : ∀ cur ∈ memmap, WellFormed mem cur) :
    ((CLib.strcmp strings s1 s2 fuel = some 0 ↔ a = b) ↔ ¬ Confused a b) ∧
      (StartsShellsOnly mem memmap ↔ NoConfusedName mem memmap) := by
  constructor
  · rw [strcmp_eq_zero_iff ha hb hfuel]
    constructor
    · intro hexact hconfused
      exact hconfused.1 (hexact.mp (.inr hconfused))
    · intro hclear
      exact or_iff_left hclear
  · exact startsShellsOnly_iff hwell

/-! ## Modules in memory -/

/-- An entry of `Sections` with its type and its start. -/
def sectionBytes (type start : Byte) : List Byte :=
  [type, 0, 0, 0, 0, 0, 0, 0, start, 0, 0, 0, 0, 0, 0, 0]

/-- An executable whose name is also its author and its description. -/
def namedImage (name : List Byte) : List Byte :=
  [0x41, 0x54, 0x54, 0x47, 1, 0, 0, 0, 0, 0, 0, 0, 4, 0, 0, 0] ++ sectionBytes 0 80 ++
    sectionBytes 1 80 ++ sectionBytes 2 80 ++ sectionBytes 5 90 ++ name ++ [0]

/-- The image at address `0x1000`. -/
def namedModule (name : List Byte) : Mem := fun a => (namedImage name).getD (a - 0x1000).toNat 0

/-- Its entry in the memory map. -/
def namedEntry : MmapEntry := ⟨0x1000, 0x1000, mmapKernelAndModules⟩

/-- The bytes of `"Sh"`. -/
def shName : List Byte := [0x53, 0x68]

/-- The four sections are found, and their starts are in the entry. -/
theorem named_sections : ∀ name ∈ [shellName, shName],
    ∀ entry ∈ [(moduleSectionName, 0), (moduleSectionAuthor, 1), (moduleSectionDescription, 2),
      (moduleSectionSignalHandler, 3)],
    FirstSection (namedModule name) 0x1000 entry.1 entry.2 ∧
      sectionOffset entry.2 + 16 ≤ room namedEntry ∧
      (sectionStart (namedModule name) 0x1000 entry.2).toNat < room namedEntry := by
  unfold FirstSection
  decide +kernel

theorem named_nameIs : ∀ name ∈ [shellName, shName], NameIs (namedModule name) namedEntry name := by
  unfold NameIs
  decide +kernel

theorem named_wellFormed {name : List Byte} (h : name ∈ [shellName, shName]) :
    WellFormed (namedModule name) namedEntry where
  header := by
    have hsections := named_sections name h
    have hstring : ∀ entry ∈ [(moduleSectionName, 0), (moduleSectionAuthor, 1),
        (moduleSectionDescription, 2), (moduleSectionSignalHandler, 3)],
        StringOk (namedModule name) namedEntry entry.1 := fun entry hs =>
      ⟨entry.2, hsections entry hs⟩
    refine fun _ => ⟨by decide, fun _ => ⟨hstring (moduleSectionAuthor, 1) (by decide),
      hstring (moduleSectionName, 0) (by decide), hstring (moduleSectionDescription, 2) (by decide),
      fun _ => ⟨3, ?_⟩⟩⟩
    obtain ⟨hfirst, hroom, -⟩ := hsections (moduleSectionSignalHandler, 3) (by decide)
    exact ⟨hfirst, hroom⟩
  name _ _ := ⟨name, named_nameIs name h⟩

theorem exact_names_iff_shell :
    (∀ cur ∈ [namedEntry], WellFormed (namedModule shellName) cur) ∧
      StartsShellsOnly (namedModule shellName) [namedEntry] ∧
      (CLib.strcmp (namedModule shellName) 0x1050 0x1050 9 = some 0 ↔ shellName = shellName) := by
  have hname := named_nameIs shellName (by decide)
  have hwell : ∀ cur ∈ [namedEntry], WellFormed (namedModule shellName) cur :=
    List.forall_mem_singleton.mpr (named_wellFormed (by decide))
  have hstring : StringAt (namedModule shellName) 0x1050 shellName := by decide +kernel
  obtain ⟨hstrings, hstarts⟩ :=
    exact_names_iff hstring hstring (by decide : shellName.length < 9) hwell
  refine ⟨hwell, hstarts.mpr ?_, hstrings.mpr (by decide)⟩
  intro cur hcur _ name' hname'
  cases List.mem_singleton.mp hcur
  rw [hname'.unique hname]
  decide

/-- **A module called `"Sh"` is started**: `strcmp` takes its name for `"Shell"`. -/
theorem prefix_is_started :
    (∀ cur ∈ [namedEntry], WellFormed (namedModule shName) cur) ∧
      namedEntry ∈ startedModules (namedModule shName) [namedEntry] ∧
      ¬ StartsShellsOnly (namedModule shName) [namedEntry] := by
  have hwell : ∀ cur ∈ [namedEntry], WellFormed (namedModule shName) cur :=
    List.forall_mem_singleton.mpr (named_wellFormed (by decide))
  have hstarted : namedEntry ∈ startedModules (namedModule shName) [namedEntry] := by
    decide +kernel
  refine ⟨hwell, hstarted, fun honly => ?_⟩
  have hname := (named_nameIs shName (by decide)).unique (honly _ hstarted).2
  exact absurd hname (by decide)

end OsdevX64.Loader
