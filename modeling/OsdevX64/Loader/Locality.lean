import OsdevX64.Loader.Naming

/-!
# What parsing depends on

The uses that the functions of `kernel/module.c` report are all they read, apart from the
characters of a name: in two memories that agree on these bytes they do the same
(`listEntry_congr`, `initEntry_congr`).

For a module whose header and name are in its entry this makes the entry the only part of
memory that matters (`entry_of_agreeOn`).
-/

namespace OsdevX64.Loader

open ByteMemory Kernel CLib

variable {mem mem' : Mem}

/-- The two memories hold the same bytes where this is read. -/
def Use.Same (mem mem' : Mem) : Use → Prop
  | .load a bytes => ∀ j < bytes, mem' (a + BitVec.ofNat 64 j) = mem (a + BitVec.ofNat 64 j)
  -- where this leads is not followed
  | .failedLookup => False

/-! ## Loads -/

theorem load32_congr {a : BitVec 64} (h : (Use.load a 4).Same mem mem') :
    load32 mem' a = load32 mem a :=
  congrArg (BitVec.ofNat 32) (loadLE_congr fun i hi => h i hi)

theorem load64_congr {a : BitVec 64} (h : (Use.load a 8).Same mem mem') :
    load64 mem' a = load64 mem a :=
  congrArg (BitVec.ofNat 64) (loadLE_congr fun i hi => h i hi)

/-! ## Sections -/

theorem sectionLoop_congr {header : BitVec 64} {type : BitVec 32} {n i : ℕ}
    (h : ∀ use ∈ (sectionLoop mem header type n i).2, use.Same mem mem') :
    sectionLoop mem' header type n i = sectionLoop mem header type n i := by
  induction n generalizing i with
  | zero => rfl
  | succ n ih =>
      unfold sectionLoop at h ⊢
      dsimp only at h ⊢
      have htype : sectionType mem' header i = sectionType mem header i := by
        refine load32_congr (h _ ?_)
        split_ifs
        · exact List.mem_singleton_self _
        · exact List.mem_cons_self
      rw [htype]
      split_ifs with hfound
      · rfl
      · rw [if_neg hfound] at h
        rw [ih fun use huse => h use (List.mem_cons_of_mem _ huse)]

theorem getSection_congr {header : BitVec 64} {type : BitVec 32}
    (h : ∀ use ∈ (getSection mem header type).2, use.Same mem mem') :
    getSection mem' header type = getSection mem header type := by
  obtain ⟨hcount, hloop⟩ := List.forall_mem_cons.mp h
  have hnum : numSections mem' header = numSections mem header := load32_congr hcount
  unfold getSection
  rw [hnum, sectionLoop_congr hloop]

theorem getStart_congr {header : BitVec 64} {type : BitVec 32}
    (h : ∀ use ∈ (getStart mem header type).2, use.Same mem mem') :
    getStart mem' header type = getStart mem header type := by
  unfold getStart at h ⊢
  rcases hsection : getSection mem header type with ⟨_ | i, uses⟩
  · rw [hsection] at h
    exact absurd (h .failedLookup (List.mem_append_right _ List.mem_cons_self)) id
  · rw [hsection] at h
    obtain ⟨huses, hstart⟩ := List.forall_mem_append.mp h
    have hsame : getSection mem' header type = getSection mem header type :=
      getSection_congr (hsection ▸ huses)
    rw [hsame, hsection]
    dsimp only
    unfold sectionStart
    rw [load64_congr (hstart _ List.mem_cons_self)]

theorem getSectionStr_congr {header : BitVec 64} {type : BitVec 32}
    (h : ∀ use ∈ (getSectionStr mem header type).2, use.Same mem mem') :
    getSectionStr mem' header type = getSectionStr mem header type := by
  unfold getSectionStr
  rw [getStart_congr h]

/-- A comparison reads a string up to its end. -/
theorem strcmp_congr {s : BitVec 64} {name lit : List Byte} (hname : StringAt mem s name)
    (h : ∀ j ≤ name.length, mem' (s + BitVec.ofNat 64 j) = mem (s + BitVec.ofNat 64 j)) :
    strcmp mem' s lit = strcmp mem s lit := by
  induction lit generalizing s name with
  | nil => rfl
  | cons c lit ih =>
      have hfirst : mem' s = mem s := by
        have hzero := h 0 (Nat.zero_le _)
        rwa [BitVec.add_zero] at hzero
      rw [strcmp, strcmp, hfirst]
      cases name with
      | nil =>
          have hend : mem s = 0 := hname
          rw [if_pos hend, if_pos hend]
      | cons d name =>
          rw [ih hname.2.2 fun j hj => ?_]
          have hnext := h (j + 1) (Nat.succ_le_succ hj)
          rwa [BitVec.ofNat_add, BitVec.add_comm (BitVec.ofNat 64 j), ← BitVec.add_assoc] at hnext

/-! ## Entries -/

/-- The `Magic` of an entry whose type is right is read before anything else. -/
theorem magic_congr {cur : MmapEntry} (h : (Use.load (fieldAddr cur.base 0) 4).Same mem mem') :
    magic mem' cur.base = magic mem cur.base := load32_congr h

/-- What is listed of an entry depends on the uses that are reported. -/
theorem listEntry_congr {cur : MmapEntry}
    (h : ∀ use ∈ (listEntry mem cur).2, use.Same mem mem') :
    listEntry mem' cur = listEntry mem cur := by
  unfold listEntry at h ⊢
  dsimp only at h ⊢
  by_cases htype : cur.type = mmapKernelAndModules
  · rw [if_neg (not_not_intro htype)] at h
    rw [if_neg (not_not_intro htype), if_neg (not_not_intro htype)]
    by_cases hmagic : magic mem cur.base = moduleMagic
    · rw [if_neg (not_not_intro hmagic)] at h
      simp only [List.forall_mem_append, List.forall_mem_cons] at h
      obtain ⟨⟨⟨⟨⟨huse, -⟩, hid, hkind, hcount, -⟩, hauthor, -⟩, hname, -⟩, hdescription, -⟩ := h
      have hheaderId : headerId mem' cur.base = headerId mem cur.base := load32_congr hid
      have hheaderType : headerType mem' cur.base = headerType mem cur.base := load32_congr hkind
      have hnum : numSections mem' cur.base = numSections mem cur.base := load32_congr hcount
      rw [magic_congr huse, getSectionStr_congr hauthor, getSectionStr_congr hname,
        getSectionStr_congr hdescription, hheaderId, hheaderType, hnum]
    · rw [if_pos hmagic] at h
      rw [magic_congr (h _ List.mem_cons_self), if_pos hmagic, if_pos hmagic]
  · rw [if_pos htype, if_pos htype]

/-- Which handler is started depends on the uses that are reported and on the name. -/
theorem initEntry_congr {cur : MmapEntry} (h : ∀ use ∈ (initEntry mem cur).2, use.Same mem mem')
    (hname : IsExecutable mem cur → ∃ name, NameIs mem cur name ∧ ∀ j ≤ name.length,
      mem' ((getSectionStr mem cur.base moduleSectionName).1 + BitVec.ofNat 64 j) =
        mem ((getSectionStr mem cur.base moduleSectionName).1 + BitVec.ofNat 64 j)) :
    initEntry mem' cur = initEntry mem cur := by
  unfold initEntry at h ⊢
  dsimp only at h ⊢
  by_cases htype : cur.type = mmapKernelAndModules
  · rw [if_neg (not_not_intro htype)] at h
    rw [if_neg (not_not_intro htype), if_neg (not_not_intro htype)]
    by_cases hmagic : magic mem cur.base = moduleMagic
    · rw [if_neg (not_not_intro hmagic)] at h
      by_cases hexec : headerType mem cur.base = moduleTypeExecutable
      · rw [if_neg (not_not_intro hexec)] at h
        simp only [List.forall_mem_append, List.forall_mem_cons] at h
        obtain ⟨⟨⟨⟨huse, -⟩, hkind, -⟩, hstart⟩, hstr, -⟩ := h
        have hheaderType : headerType mem' cur.base = headerType mem cur.base :=
          load32_congr hkind
        obtain ⟨name, hstring, hchars⟩ := hname ⟨htype, hmagic, hexec⟩
        rw [magic_congr huse, hheaderType, getStart_congr hstart, getSectionStr_congr hstr,
          strcmp_congr hstring hchars]
      · rw [if_pos hexec] at h
        simp only [List.forall_mem_append, List.forall_mem_cons] at h
        obtain ⟨⟨huse, -⟩, hkind, -⟩ := h
        have hheaderType : headerType mem' cur.base = headerType mem cur.base :=
          load32_congr hkind
        rw [magic_congr huse, hheaderType, if_pos hexec, if_pos hexec]
    · rw [if_pos hmagic] at h
      rw [magic_congr (h _ List.mem_cons_self), if_pos hmagic, if_pos hmagic]
  · rw [if_pos htype, if_pos htype]

/-! ## Modules inside their entries -/

/-- The two memories agree on an entry of the memory map. -/
def AgreeOn (mem mem' : Mem) (cur : MmapEntry) : Prop :=
  ∀ a : BitVec 64, cur.Covers a.toNat → mem' a = mem a

/-- The module keeps what the code takes for granted, and the name of an executable ends in
its entry. -/
structure InsideEntry (mem : Mem) (cur : MmapEntry) : Prop where
  header : HeaderOk mem cur
  name : IsExecutable mem cur → ∃ name, NameIs mem cur name ∧ ∀ j ≤ name.length,
    cur.Covers ((getSectionStr mem cur.base moduleSectionName).1 + BitVec.ofNat 64 j).toNat

/-- An entry of another type is no module. -/
theorem InsideEntry.of_type {cur : MmapEntry} (htype : cur.type ≠ mmapKernelAndModules) :
    InsideEntry mem cur :=
  ⟨fun h => absurd h htype, fun h => absurd h.1 htype⟩

theorem Use.Ok.same {cur : MmapEntry} {use : Use} (h : use.Ok cur) (hagree : AgreeOn mem mem' cur) :
    use.Same mem mem' := by
  cases use with
  | load a bytes => exact fun j hj => hagree _ (h j hj)
  | failedLookup => exact h

/-- **Of memory only the entry matters to a module inside it**, and nothing to an entry of
another type. -/
theorem entry_of_agreeOn {cur : MmapEntry} (h : InsideEntry mem cur)
    (hagree : cur.type = mmapKernelAndModules → AgreeOn mem mem' cur) :
    listEntry mem' cur = listEntry mem cur ∧ initEntry mem' cur = initEntry mem cur := by
  by_cases htype : cur.type = mmapKernelAndModules
  · obtain ⟨hlist, hinit⟩ := (headerOk_iff mem cur).mpr h.header
    refine ⟨listEntry_congr fun use huse => (hlist use huse).same (hagree htype),
      initEntry_congr (fun use huse => (hinit use huse).same (hagree htype)) fun hexec => ?_⟩
    obtain ⟨name, hname, hchars⟩ := h.name hexec
    exact ⟨name, hname, fun j hj => hagree htype _ (hchars j hj)⟩
  · unfold listEntry initEntry
    dsimp only
    rw [if_pos htype, if_pos htype, if_pos htype, if_pos htype]
    exact ⟨rfl, rfl⟩

/-- Of an entry without the magic number only the place of that number matters. -/
theorem entry_of_no_magic {cur : MmapEntry} (hmagic : magic mem cur.base ≠ moduleMagic)
    (hsame : (Use.load (fieldAddr cur.base 0) 4).Same mem mem') :
    listEntry mem' cur = listEntry mem cur ∧ initEntry mem' cur = initEntry mem cur := by
  have heq : magic mem' cur.base = magic mem cur.base := load32_congr hsame
  unfold listEntry initEntry
  dsimp only
  rw [heq, if_pos hmagic, if_pos hmagic, if_pos hmagic, if_pos hmagic]
  exact ⟨rfl, rfl⟩

/-- **A memory map is read the same** if each of its entries is. -/
theorem modules_congr {memmap : List MmapEntry}
    (h : ∀ cur ∈ memmap, listEntry mem' cur = listEntry mem cur ∧
      initEntry mem' cur = initEntry mem cur) :
    moduleList mem' memmap = moduleList mem memmap ∧
      moduleInit mem' memmap = moduleInit mem memmap := by
  constructor
  · exact List.filterMap_congr fun cur hcur => by rw [(h cur hcur).1]
  · exact List.filterMap_congr fun cur hcur => by rw [(h cur hcur).2]

end OsdevX64.Loader
