import OsdevX64.Interrupt.Machine
import OsdevX64.Lib.Tracked

/-!
# The interrupt descriptor table

`create_descriptor` and `idt_init` of `kernel/cpu.c`.  The table `_isr_names_asm` of
`platform.s` holds the addresses of the 48 stubs in the order of their vectors; in C it is
an array without a length, so a word behind it is read like one of its own.

A descriptor has the address in three fields, from which the CPU puts it together again
(`handler_descriptor`).  `idt_init` fills the vectors 0 to 47, **whose entries are sound,
and then the vector 255, for which there is no stub** (`idt_sound_iff`): its entry is
present and leads to whatever the word behind the table says.
-/

namespace OsdevX64.Interrupt

open ByteMemory

/-! ## The source -/

/-- `struct IDT_Descriptor`. -/
structure IdtDescriptor where
  offset15_0 : BitVec 16
  selector : BitVec 16
  ist : BitVec 8
  typeAndAttributes : BitVec 8
  offset31_16 : BitVec 16
  offset63_32 : BitVec 32
  zero : BitVec 32
  deriving DecidableEq, Repr

/-- `_isr_names_asm`: the addresses of the stubs, and the words behind the table. -/
def isrNamesAsm (stubs : Fin 48 → Word) (behind : ℕ → Word) (i : ℕ) : Word :=
  if h : i < 48 then stubs ⟨i, h⟩ else behind (i - 48)

/-- The array `idt`, and the table it is made from. -/
structure Descriptors where
  idt : BitVec 8 → IdtDescriptor
  isrNames : Tracked ℕ Word

/-- What `create_descriptor` makes of an address. -/
def descriptor (offset : Word) : IdtDescriptor where
  offset15_0 := (offset &&& 0xFFFF).setWidth 16
  selector := 0x08
  ist := 0
  typeAndAttributes := 0x8E
  offset31_16 := (offset >>> 16 &&& 0xFFFF).setWidth 16
  offset63_32 := (offset >>> 32 &&& 0xFFFFFFFF).setWidth 32
  zero := 0

/-- `create_descriptor`. -/
def createDescriptor (s : Descriptors) (index : BitVec 8) : Descriptors :=
  let (offset, isrNames) := s.isrNames.read index.toNat
  { idt := Function.update s.idt index (descriptor offset), isrNames := isrNames }

/-- A loop of `idt_init`, for `count` vectors from `first` on. -/
def createDescriptors (s : Descriptors) (first count : ℕ) : Descriptors :=
  (List.range' first count).foldl (fun s i => createDescriptor s (BitVec.ofNat 8 i)) s

/-- `idt_init`. -/
def idtInit (s : Descriptors) : Descriptors :=
  let s := createDescriptors s 0 32
  let s := createDescriptors s 32 16
  createDescriptor s 255

/-- Before `idt_init`: static data is zero. -/
def Descriptors.boot (stubs : Fin 48 → Word) (behind : ℕ → Word) : Descriptors where
  idt _ := ⟨0, 0, 0, 0, 0, 0, 0⟩
  isrNames := Tracked.fresh (isrNamesAsm stubs behind)

/-! ## What the CPU makes of it -/

/-- The bit P of a descriptor. -/
def IdtDescriptor.Present (d : IdtDescriptor) : Prop := d.typeAndAttributes.getLsbD 7 = true

instance (d : IdtDescriptor) : Decidable d.Present := inferInstanceAs (Decidable (_ = _))

/-- The address of the handler. -/
def IdtDescriptor.handler (d : IdtDescriptor) : Word :=
  d.offset63_32 ++ d.offset31_16 ++ d.offset15_0

/-- An entry that is present leads to the stub of its vector. -/
def EntrySound (stubs : Fin 48 → Word) (idt : BitVec 8 → IdtDescriptor) (v : BitVec 8) : Prop :=
  (idt v).Present → ∃ h : v.toNat < 48, (idt v).handler = stubs ⟨v.toNat, h⟩

/-- Only words of the table were read, and every entry is sound. -/
structure IdtSound (stubs : Fin 48 → Word) (s : Descriptors) : Prop where
  reads : ∀ i ∈ s.isrNames.reads, i < 48
  entries : ∀ v, EntrySound stubs s.idt v

/-- A shifted and masked address in a narrower field. -/
theorem setWidth_masked (offset mask : Word) {n w : ℕ}
    (hmask : mask.setWidth w = BitVec.allOnes w) :
    (offset >>> n &&& mask).setWidth w = offset.extractLsb' n w := by
  rw [BitVec.setWidth_and, hmask, BitVec.and_allOnes, BitVec.setWidth_ushiftRight_eq_extractLsb]

/-- **The three fields are the address.** -/
theorem handler_descriptor (offset : Word) : (descriptor offset).handler = offset := by
  have hlow : (offset &&& 0xFFFF).setWidth 16 = offset.extractLsb' 0 16 := by
    have hfield := setWidth_masked offset 0xFFFF (n := 0) (w := 16) (by decide)
    rw [BitVec.ushiftRight_zero] at hfield
    exact hfield
  have hmiddle : (offset >>> 16 &&& 0xFFFF).setWidth 16 = offset.extractLsb' 16 16 :=
    setWidth_masked offset 0xFFFF (by decide)
  have hhigh : (offset >>> 32 &&& 0xFFFFFFFF).setWidth 32 = offset.extractLsb' 32 32 :=
    setWidth_masked offset 0xFFFFFFFF (by decide)
  have hupper : offset.extractLsb' 32 32 ++ offset.extractLsb' 16 16 = offset.extractLsb' 16 48 :=
    BitVec.extractLsb'_append_extractLsb'_eq_extractLsb' rfl
  have hwhole : offset.extractLsb' 16 48 ++ offset.extractLsb' 0 16 = offset.extractLsb' 0 64 :=
    BitVec.extractLsb'_append_extractLsb'_eq_extractLsb' rfl
  unfold IdtDescriptor.handler descriptor
  dsimp only
  rw [hlow, hmiddle, hhigh, hupper]
  exact hwhole.trans BitVec.extractLsb'_eq_self

theorem descriptor_present (offset : Word) : (descriptor offset).Present := by
  show (0x8E : BitVec 8).getLsbD 7 = true
  decide

/-! ## Which entries are filled -/

/-- The vectors that `idt_init` fills, in order. -/
def filled : List (BitVec 8) := (List.range 48).map (BitVec.ofNat 8) ++ [255]

theorem mem_filled_iff (v : BitVec 8) : v ∈ filled ↔ v.toNat < 48 ∨ v = 255 := by
  unfold filled
  rw [List.mem_append, List.mem_singleton, List.mem_map]
  refine or_congr_left ⟨?_, fun hv => ⟨v.toNat, List.mem_range.mpr hv, ?_⟩⟩
  · rintro ⟨i, hi, rfl⟩
    have hlt := List.mem_range.mp hi
    rw [BitVec.toNat_ofNat]
    omega
  · exact (BitVec.ofNat_toNat 8 v).trans (BitVec.setWidth_eq v)

theorem idtInit_eq (s : Descriptors) : idtInit s = filled.foldl createDescriptor s := by
  unfold idtInit createDescriptors filled
  rw [List.foldl_append, List.foldl_map, show List.range 48 = List.range' 0 32 ++ List.range' 32 16
    by decide, List.foldl_append]
  rfl

/-- **A loop of descriptors** fills the entries of its vectors from the table, and no
others. -/
theorem foldl_createDescriptor (vs : List (BitVec 8)) (s : Descriptors) :
    (∀ v, (vs.foldl createDescriptor s).idt v =
      if v ∈ vs then descriptor (s.isrNames.cell v.toNat) else s.idt v) ∧
    (vs.foldl createDescriptor s).isrNames.reads = (vs.map BitVec.toNat).reverse ++
      s.isrNames.reads := by
  induction vs generalizing s with
  | nil => exact ⟨fun v => (if_neg List.not_mem_nil).symm, rfl⟩
  | cons w vs ih =>
      obtain ⟨hidt, hreads⟩ := ih (createDescriptor s w)
      rw [List.foldl_cons]
      refine ⟨fun v => ?_, ?_⟩
      · rw [hidt v]
        by_cases hv : v ∈ vs
        · rw [if_pos hv, if_pos (List.mem_cons_of_mem w hv)]
          rfl
        · rw [if_neg hv]
          show Function.update s.idt w (descriptor (s.isrNames.cell w.toNat)) v = _
          by_cases hw : v = w
          · subst hw
            rw [Function.update_self, if_pos List.mem_cons_self]
          · rw [Function.update_of_ne hw,
              if_neg (fun h => (List.mem_cons.mp h).elim hw hv)]
      · rw [hreads, List.map_cons, List.reverse_cons, List.append_assoc]
        rfl

/-- **The entries after `idt_init`.** -/
theorem idtInit_entry (stubs : Fin 48 → Word) (behind : ℕ → Word) (v : BitVec 8) :
    (idtInit (Descriptors.boot stubs behind)).idt v = if v.toNat < 48 ∨ v = 255 then
      descriptor (isrNamesAsm stubs behind v.toNat) else ⟨0, 0, 0, 0, 0, 0, 0⟩ := by
  rw [idtInit_eq]
  refine ((foldl_createDescriptor filled (Descriptors.boot stubs behind)).1 v).trans ?_
  simp only [mem_filled_iff]
  rfl

/-- **The vector 255 is the only entry that is not sound**, and it never is. -/
theorem idt_sound_iff (stubs : Fin 48 → Word) (behind : ℕ → Word) :
    let s := idtInit (Descriptors.boot stubs behind)
    (∀ v, EntrySound stubs s.idt v ↔ v ≠ 255) ∧
      (∀ v, (s.idt v).Present ↔ v.toNat < 48 ∨ v = 255) ∧ ¬ IdtSound stubs s := by
  intro s
  have hreads := (foldl_createDescriptor filled (Descriptors.boot stubs behind)).2
  rw [← idtInit_eq] at hreads
  have hentry := idtInit_entry stubs behind
  have hpresent : ∀ v, (s.idt v).Present ↔ v.toNat < 48 ∨ v = 255 := by
    intro v
    rw [hentry]
    split_ifs with hv
    · exact iff_of_true (descriptor_present _) hv
    · exact iff_of_false (by decide) hv
  refine ⟨fun v => ⟨?_, fun hv hp => ?_⟩, hpresent, fun hsound => ?_⟩
  · rintro hsound rfl
    obtain ⟨hlt, -⟩ := hsound ((hpresent 255).mpr (Or.inr rfl))
    exact absurd hlt (by decide)
  · have hlt := ((hpresent v).mp hp).resolve_right hv
    refine ⟨hlt, ?_⟩
    rw [hentry, if_pos (Or.inl hlt), handler_descriptor, isrNamesAsm, dif_pos hlt]
  · have hread : (255 : BitVec 8).toNat ∈ s.isrNames.reads := by
      rw [show s.isrNames.reads = _ from hreads]
      refine List.mem_append_left _ (List.mem_reverse.mpr (List.mem_map_of_mem ?_))
      exact (mem_filled_iff 255).mpr (Or.inr rfl)
    exact absurd (hsound.reads _ hread) (by decide)

/-- **The vector 255 leads behind the table**, here to address 0. -/
theorem vector_255_unsound :
    let stubs : Fin 48 → Word := fun i => 0xFFFFFFFF80200040 + BitVec.ofNat 64 (i * 9)
    let s := idtInit (Descriptors.boot stubs fun _ => 0)
    (s.idt 255).Present ∧ (s.idt 255).handler = 0 ∧ 255 ∈ s.isrNames.reads ∧
      ¬ IdtSound stubs s := by
  intro stubs s
  have hread : 255 ∈ s.isrNames.reads := by decide
  refine ⟨by decide, by decide, hread, fun hsound => ?_⟩
  exact absurd (hsound.reads 255 hread) (by decide)

end OsdevX64.Interrupt
