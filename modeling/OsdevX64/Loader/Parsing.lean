import OsdevX64.Loader.ModuleHeader

/-!
# When headers are parsed safely

`get_section` reports a missing section by a null pointer, `get_section_str` and
`module_init` use its result without looking, and no offset is compared with the
length of the entry.  So **parsing is safe exactly for the headers that have the
sections asked for, inside their entry** (`parsed_safely_iff`).

The equivalence is assembled from the single load (`load_ok_iff`), the section
lookup (`getStart_ok_iff`) and the string behind it (`getSectionStr_ok_iff`);
`HeaderOk` is the conjunction that results for one entry.
-/

namespace OsdevX64.Loader

open ByteMemory Kernel

/-- The load is inside the entry, and no failed lookup is used. -/
def Use.Ok (cur : MmapEntry) : Use → Prop
  | .load a bytes => ∀ j < bytes, cur.Covers (a + BitVec.ofNat 64 j).toNat
  | .failedLookup => False

/-- The bytes of an entry, up to the end of the address space. -/
def room (cur : MmapEntry) : ℕ := min cur.length.toNat (2 ^ 64 - cur.base.toNat)

/-- `k` is the first of the header's sections that has the type. -/
def FirstSection (mem : Mem) (header : BitVec 64) (type : BitVec 32) (k : ℕ) : Prop :=
  k < (numSections mem header).toNat ∧ sectionType mem header k = type ∧
    ∀ i < k, sectionType mem header i ≠ type

/-- There is a section of the type, and its entry is in the room. -/
def SectionOk (mem : Mem) (cur : MmapEntry) (type : BitVec 32) : Prop :=
  ∃ k, FirstSection mem cur.base type k ∧ sectionOffset k + 16 ≤ room cur

/-- There is a section of the type, and its entry and its start are in the room. -/
def StringOk (mem : Mem) (cur : MmapEntry) (type : BitVec 32) : Prop :=
  ∃ k, FirstSection mem cur.base type k ∧ sectionOffset k + 16 ≤ room cur ∧
    (sectionStart mem cur.base k).toNat < room cur

/-- **What the code takes for granted** about an entry of the memory map. -/
def HeaderOk (mem : Mem) (cur : MmapEntry) : Prop :=
  cur.type = mmapKernelAndModules → 4 ≤ room cur ∧
    (magic mem cur.base = moduleMagic →
      StringOk mem cur moduleSectionAuthor ∧ StringOk mem cur moduleSectionName ∧
        StringOk mem cur moduleSectionDescription ∧
        (headerType mem cur.base = moduleTypeExecutable →
          SectionOk mem cur moduleSectionSignalHandler))

/-- The uses of `module_list` and `module_init`, with the entries examined. -/
def uses (mem : Mem) (memmap : List MmapEntry) : List (MmapEntry × Use) :=
  (memmap.flatMap fun cur => (listEntry mem cur).2.map (Prod.mk cur)) ++
    memmap.flatMap fun cur => (initEntry mem cur).2.map (Prod.mk cur)

/-! ## One load -/

theorem covers_fieldAddr_iff (cur : MmapEntry) {off : ℕ} (hoff : off < 2 ^ 64) :
    cur.Covers (fieldAddr cur.base off).toNat ↔ off < room cur := by
  have hbase := cur.base.isLt
  unfold MmapEntry.Covers fieldAddr room
  rw [BitVec.toNat_add, BitVec.toNat_ofNat, Nat.add_mod_mod]
  omega

theorem load_ok_iff (cur : MmapEntry) (off : ℕ) {bytes : ℕ} (hbytes : 0 < bytes)
    (hoff : off + bytes ≤ 2 ^ 64) :
    (Use.load (fieldAddr cur.base off) bytes).Ok cur ↔ off + bytes ≤ room cur := by
  have hshift : ∀ j, fieldAddr cur.base off + BitVec.ofNat 64 j = fieldAddr cur.base (off + j) := by
    intro j
    unfold fieldAddr
    rw [BitVec.add_assoc, ← BitVec.ofNat_add]
  constructor
  · intro h
    have hlast := h (bytes - 1) (Nat.sub_one_lt_of_lt hbytes)
    rw [hshift, covers_fieldAddr_iff cur (by omega)] at hlast
    omega
  · intro h j hj
    rw [hshift, covers_fieldAddr_iff cur (by omega)]
    omega

/-! ## The section lookup -/

/-- The loop finds the first section of the type, if there is one, and looks at
no section behind it. -/
theorem sectionLoop_spec (mem : Mem) (header : BitVec 64) (type : BitVec 32) (n i : ℕ) :
    match sectionLoop mem header type n i with
    | (none, _) => ∀ j, i ≤ j → j < i + n → sectionType mem header j ≠ type
    | (some k, uses) => (i ≤ k ∧ k < i + n) ∧ sectionType mem header k = type ∧
        (∀ j, i ≤ j → j < k → sectionType mem header j ≠ type) ∧
        ∀ use ∈ uses, ∃ j ≤ k, use = .load (fieldAddr header (sectionOffset j)) 4 := by
  induction n generalizing i with
  | zero =>
      intro j hlow hhigh
      omega
  | succ n ih =>
      unfold sectionLoop
      dsimp only
      by_cases htype : sectionType mem header i = type
      · rw [if_pos htype]
        refine ⟨⟨Nat.le_refl i, by omega⟩, htype, fun j hlow hhigh => by omega, ?_⟩
        intro use huse
        exact ⟨i, Nat.le_refl i, List.mem_singleton.mp huse⟩
      -- the invariant of the loop: no section before `i + 1` has the type
      · rw [if_neg htype]
        have hrest := ih (i + 1)
        generalize sectionLoop mem header type n (i + 1) = rest at hrest
        obtain ⟨_ | k, uses⟩ := rest
        · intro j hlow hhigh
          rcases Nat.eq_or_lt_of_le hlow with rfl | hlt
          · exact htype
          · exact hrest j hlt (by omega)
        · obtain ⟨hk, hfound, hbefore, huses⟩ := hrest
          refine ⟨⟨by omega, by omega⟩, hfound, ?_, ?_⟩
          · intro j hlow hhigh
            rcases Nat.eq_or_lt_of_le hlow with rfl | hlt
            · exact htype
            · exact hbefore j hlt hhigh
          · intro use huse
            rcases List.mem_cons.mp huse with rfl | huse
            · exact ⟨i, by omega, rfl⟩
            · exact huses use huse

theorem FirstSection.unique {mem : Mem} {header : BitVec 64} {type : BitVec 32} {k l : ℕ}
    (hk : FirstSection mem header type k) (hl : FirstSection mem header type l) : k = l := by
  rcases Nat.lt_trichotomy k l with hlt | heq | hgt
  · exact absurd hk.2.1 (hl.2.2 k hlt)
  · exact heq
  · exact absurd hl.2.1 (hk.2.2 l hgt)

/-- **The lookup finds the first section of the type, or its failure is used.** -/
theorem getStart_spec (mem : Mem) (header : BitVec 64) (type : BitVec 32) :
    (∃ k seen, FirstSection mem header type k ∧
      getStart mem header type = (sectionStart mem header k,
        seen ++ [.load (fieldAddr header (sectionOffset k + 8)) 8]) ∧
      ∀ use ∈ seen, use = .load (fieldAddr header 12) 4 ∨
        ∃ j ≤ k, use = .load (fieldAddr header (sectionOffset j)) 4) ∨
    (∀ k, ¬ FirstSection mem header type k) ∧
      .failedLookup ∈ (getStart mem header type).2 := by
  have hloop := sectionLoop_spec mem header type (numSections mem header).toNat 0
  unfold getStart getSection
  generalize sectionLoop mem header type (numSections mem header).toNat 0 = found at hloop
  obtain ⟨_ | k, seen⟩ := found
  · refine Or.inr ⟨?_, List.mem_append_right _ (List.mem_singleton_self _)⟩
    intro k hk
    exact hloop k (Nat.zero_le k) ((Nat.zero_add _).symm ▸ hk.1) hk.2.1
  · obtain ⟨hk, hfound, hbefore, hseen⟩ := hloop
    refine Or.inl ⟨k, _, ⟨by omega, hfound, fun i hi => hbefore i (Nat.zero_le i) hi⟩, rfl, ?_⟩
    intro use huse
    rcases List.mem_cons.mp huse with rfl | huse
    · exact Or.inl rfl
    · exact Or.inr (hseen use huse)

theorem sectionOffset_lt {n : BitVec 32} {k : ℕ} (h : k < n.toNat) :
    sectionOffset k + 16 < 2 ^ 64 := by
  have := n.isLt
  unfold sectionOffset
  omega

theorem getStart_fst {mem : Mem} {header : BitVec 64} {type : BitVec 32} {k : ℕ}
    (hk : FirstSection mem header type k) :
    (getStart mem header type).1 = sectionStart mem header k := by
  rcases getStart_spec mem header type with ⟨l, seen, hl, heq, -⟩ | ⟨hnone, -⟩
  · rw [heq, hk.unique hl]
  · exact absurd hk (hnone k)

/-- **A section lookup is safe exactly when the section is there**, with its entry
in the room. -/
theorem getStart_ok_iff (mem : Mem) (cur : MmapEntry) (type : BitVec 32) :
    (∀ use ∈ (getStart mem cur.base type).2, use.Ok cur) ↔ SectionOk mem cur type := by
  rcases getStart_spec mem cur.base type with ⟨k, seen, hk, heq, hseen⟩ | ⟨hnone, hfailed⟩
  · have hlt := sectionOffset_lt hk.1
    have hstart := load_ok_iff cur (sectionOffset k + 8) (by decide : 0 < 8) (by omega)
    rw [heq, List.forall_mem_append, List.forall_mem_singleton, hstart]
    constructor
    · exact fun h => ⟨k, hk, h.2⟩
    · rintro ⟨l, hl, hroom⟩
      cases hk.unique hl
      refine ⟨?_, hroom⟩
      intro use huse
      have hoffset : 16 ≤ sectionOffset k := Nat.le_add_right 16 _
      rcases hseen use huse with rfl | ⟨j, hj, rfl⟩
      · exact (load_ok_iff cur 12 (by decide) (by decide)).mpr (by omega)
      · have hmono : sectionOffset j ≤ sectionOffset k :=
          Nat.add_le_add_left (Nat.mul_le_mul_left 16 hj) 16
        exact (load_ok_iff cur _ (by decide) (by omega)).mpr (by omega)
  · constructor
    · exact fun h => (h _ hfailed).elim
    · rintro ⟨k, hk, -⟩
      exact absurd hk (hnone k)

/-- A section lookup and the start of the string it leads to. -/
theorem getSectionStr_ok_iff (mem : Mem) (cur : MmapEntry) (type : BitVec 32) :
    (∀ use ∈ (getSectionStr mem cur.base type).2 ++
      [.load (getSectionStr mem cur.base type).1 1], use.Ok cur) ↔ StringOk mem cur type := by
  have huses : (getSectionStr mem cur.base type).2 = (getStart mem cur.base type).2 := rfl
  have hstr : (getSectionStr mem cur.base type).1 =
      fieldAddr cur.base (getStart mem cur.base type).1.toNat := by
    unfold fieldAddr
    rw [BitVec.ofNat_toNat, BitVec.setWidth_eq]
    rfl
  have hstart := (getStart mem cur.base type).1.isLt
  rw [huses, hstr, List.forall_mem_append, List.forall_mem_singleton, getStart_ok_iff,
    load_ok_iff cur _ Nat.one_pos hstart]
  constructor
  · rintro ⟨⟨k, hk, hroom⟩, hlt⟩
    rw [getStart_fst hk] at hlt
    exact ⟨k, hk, hroom, hlt⟩
  · rintro ⟨k, hk, hroom, hlt⟩
    rw [getStart_fst hk]
    exact ⟨⟨k, hk, hroom⟩, hlt⟩

theorem StringOk.header {mem : Mem} {cur : MmapEntry} {type : BitVec 32}
    (h : StringOk mem cur type) : 16 ≤ room cur := by
  obtain ⟨k, -, hroom, -⟩ := h
  unfold sectionOffset at hroom
  omega

/-! ## One entry -/

/-- A header field is in the room. -/
theorem field_ok_iff (cur : MmapEntry) (off : ℕ) (hoff : off ≤ 12) :
    (Use.load (fieldAddr cur.base off) 4).Ok cur ↔ off + 4 ≤ room cur :=
  load_ok_iff cur off (by decide) (by omega)

/-- What both loops do with an entry before they differ: its type and the magic
are checked, and `rest` is done only if they are right. -/
theorem examined_ok_iff {α : Type} (mem : Mem) (cur : MmapEntry) (found : Option α)
    (rest : List Use) :
    (∀ use ∈ (if cur.type ≠ mmapKernelAndModules then (none, [])
        else if magic mem cur.base ≠ moduleMagic then (none, [.load (fieldAddr cur.base 0) 4])
        else (found, [.load (fieldAddr cur.base 0) 4] ++ rest) : Option α × List Use).2,
          use.Ok cur) ↔
      (cur.type = mmapKernelAndModules → 4 ≤ room cur ∧
        (magic mem cur.base = moduleMagic → ∀ use ∈ rest, use.Ok cur)) := by
  have hmagic := field_ok_iff cur 0 (by decide)
  by_cases htype : cur.type = mmapKernelAndModules
  · rw [if_neg (not_not_intro htype)]
    by_cases hm : magic mem cur.base = moduleMagic
    · rw [if_neg (not_not_intro hm), List.forall_mem_append, List.forall_mem_singleton, hmagic]
      exact ⟨fun h _ => ⟨h.1, fun _ => h.2⟩, fun h => ⟨(h htype).1, (h htype).2 hm⟩⟩
    · rw [if_pos hm, List.forall_mem_singleton, hmagic]
      exact ⟨fun h _ => ⟨h, fun heq => absurd heq hm⟩, fun h => (h htype).1⟩
  · rw [if_pos htype]
    exact iff_of_true (List.forall_mem_nil _) fun heq => absurd heq htype

theorem listEntry_ok_iff (mem : Mem) (cur : MmapEntry) :
    (∀ use ∈ (listEntry mem cur).2, use.Ok cur) ↔
      (cur.type = mmapKernelAndModules → 4 ≤ room cur ∧
        (magic mem cur.base = moduleMagic → StringOk mem cur moduleSectionAuthor ∧
          StringOk mem cur moduleSectionName ∧ StringOk mem cur moduleSectionDescription)) := by
  have hfields : (∀ use ∈ [Use.load (fieldAddr cur.base 8) 4, .load (fieldAddr cur.base 4) 4,
      .load (fieldAddr cur.base 12) 4], use.Ok cur) ↔ 16 ≤ room cur := by
    rw [List.forall_mem_cons, List.forall_mem_cons, List.forall_mem_singleton,
      field_ok_iff cur 8 (by decide), field_ok_iff cur 4 (by decide),
      field_ok_iff cur 12 (by decide)]
    omega
  have hsplit : ∀ fields author name description : List Use,
      (∀ use ∈ fields ++ (author ++ (name ++ description)), use.Ok cur) ↔
        (∀ use ∈ fields, use.Ok cur) ∧ (∀ use ∈ author, use.Ok cur) ∧
          (∀ use ∈ name, use.Ok cur) ∧ ∀ use ∈ description, use.Ok cur := by
    intro fields author name description
    rw [List.forall_mem_append, List.forall_mem_append, List.forall_mem_append]
  unfold listEntry
  dsimp only
  rw [List.append_assoc, List.append_assoc, List.append_assoc, examined_ok_iff, hsplit, hfields,
    getSectionStr_ok_iff, getSectionStr_ok_iff, getSectionStr_ok_iff]
  -- the fields are before the sections: a section in the room brings them along
  have hheader : StringOk mem cur moduleSectionAuthor → 16 ≤ room cur := StringOk.header
  tauto

theorem initEntry_ok_iff (mem : Mem) (cur : MmapEntry) :
    (∀ use ∈ (initEntry mem cur).2, use.Ok cur) ↔
      (cur.type = mmapKernelAndModules → 4 ≤ room cur ∧
        (magic mem cur.base = moduleMagic → 8 ≤ room cur ∧
          (headerType mem cur.base = moduleTypeExecutable →
            SectionOk mem cur moduleSectionSignalHandler ∧
              StringOk mem cur moduleSectionName))) := by
  have hfield := field_ok_iff cur 4 (by decide)
  unfold initEntry
  dsimp only
  by_cases hexec : headerType mem cur.base = moduleTypeExecutable
  · rw [if_neg (not_not_intro hexec), List.append_assoc, List.append_assoc, examined_ok_iff,
      List.forall_mem_append, List.forall_mem_append, List.forall_mem_singleton, hfield,
      getStart_ok_iff, getSectionStr_ok_iff]
    tauto
  · rw [if_pos hexec, examined_ok_iff, List.forall_mem_singleton, hfield]
    tauto

/-- `module_list` and `module_init` together ask for what `HeaderOk` collects. -/
theorem headerOk_iff (mem : Mem) (cur : MmapEntry) :
    ((∀ use ∈ (listEntry mem cur).2, use.Ok cur) ∧ ∀ use ∈ (initEntry mem cur).2, use.Ok cur) ↔
      HeaderOk mem cur := by
  rw [listEntry_ok_iff, initEntry_ok_iff]
  constructor
  · rintro ⟨hlist, hinit⟩ htype
    refine ⟨(hlist htype).1, fun hm => ?_⟩
    obtain ⟨ha, hn, hd⟩ := (hlist htype).2 hm
    exact ⟨ha, hn, hd, fun hexec => (((hinit htype).2 hm).2 hexec).1⟩
  · intro h
    constructor
    · exact fun htype => ⟨(h htype).1, fun hm =>
        ⟨((h htype).2 hm).1, ((h htype).2 hm).2.1, ((h htype).2 hm).2.2.1⟩⟩
    · intro htype
      refine ⟨(h htype).1, fun hm => ?_⟩
      obtain ⟨ha, hn, -, hexec⟩ := (h htype).2 hm
      have hroom := ha.header
      exact ⟨by omega, fun he => ⟨hexec he, hn⟩⟩

/-! ## The memory map -/

theorem forall_mem_examined {memmap : List MmapEntry} {f : MmapEntry → List Use}
    {P : MmapEntry × Use → Prop} :
    (∀ p ∈ memmap.flatMap (fun cur => (f cur).map (Prod.mk cur)), P p) ↔
      ∀ cur ∈ memmap, ∀ use ∈ f cur, P (cur, use) := by
  constructor
  · intro h cur hcur use huse
    exact h _ (List.mem_flatMap.mpr ⟨cur, hcur, List.mem_map_of_mem huse⟩)
  · intro h p hp
    obtain ⟨cur, hcur, hp⟩ := List.mem_flatMap.mp hp
    obtain ⟨use, huse, rfl⟩ := List.mem_map.mp hp
    exact h cur hcur use huse

/-- **Headers are parsed safely exactly when every entry keeps what the code takes
for granted**: each module has the sections asked for, within its entry. -/
theorem parsed_safely_iff (mem : Mem) (memmap : List MmapEntry) :
    (∀ p ∈ uses mem memmap, p.2.Ok p.1) ↔ ∀ cur ∈ memmap, HeaderOk mem cur := by
  unfold uses
  rw [List.forall_mem_append, forall_mem_examined, forall_mem_examined, ← forall₂_and]
  exact forall₂_congr fun cur _ => headerOk_iff mem cur

/-- A module of 16 bytes whose header announces no sections. -/
def emptyModule (a : BitVec 64) : Byte :=
  if a = 0x1000 then 0x41
  else if a = 0x1001 then 0x54
  else if a = 0x1002 then 0x54
  else if a = 0x1003 then 0x47
  else 0

/-- **The author of a module without sections is read through a null pointer.** -/
theorem missing_section_used :
    (⟨0x1000, 16, mmapKernelAndModules⟩, Use.failedLookup) ∈
        uses emptyModule [⟨0x1000, 16, mmapKernelAndModules⟩] ∧
      ¬ ∀ p ∈ uses emptyModule [⟨0x1000, 16, mmapKernelAndModules⟩], p.2.Ok p.1 := by
  have hmem : (⟨0x1000, 16, mmapKernelAndModules⟩, Use.failedLookup) ∈
      uses emptyModule [⟨0x1000, 16, mmapKernelAndModules⟩] := by decide
  exact ⟨hmem, fun h => h _ hmem⟩

end OsdevX64.Loader
