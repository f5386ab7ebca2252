import Mathlib.Data.Finset.Basic
import OsdevX64.Kernel.Ps2

/-!
# Modifier bits and held keys

The driver keeps one bit for each modifier.  A press or a repetition sets it and
a release clears it, whatever other keys are down.  Every modifier but shift has
a single key, and its bit says whether that key is held; the two shift keys
share a bit, and **the bits are the set of held keys exactly as long as no shift
key is released while the other one is held** (`mods_agree_iff`).
-/

namespace OsdevX64.Kernel

/-! ## The keyboard -/

/-- A key of the keyboard, by its scancode: seven bits, after the prefix `0xE0`
for an extended key.  With `0x60` for a key its release would be the prefix. -/
structure PhysKey where
  extended : Bool
  code : BitVec 7
  code_ne : code ≠ 0x60
  deriving DecidableEq

/-- What is done with a key.  A held key that repeats is pressed again. -/
inductive Stroke
  | press (k : PhysKey)
  | release (k : PhysKey)

/-- The key a stroke is about. -/
def Stroke.key : Stroke → PhysKey
  | .press k => k
  | .release k => k

/-- The last byte of a stroke: the code, with bit 7 for a release. -/
def Stroke.lastByte : Stroke → BitVec 8
  | .press k => k.code.setWidth 8
  | .release k => k.code.setWidth 8 ||| 0x80

/-- The bytes the keyboard sends. -/
def Stroke.bytes (s : Stroke) : List (BitVec 8) :=
  (if s.key.extended then [0xE0] else []) ++ [s.lastByte]

/-- The keys that are down after a stroke. -/
def Stroke.after (held : Finset PhysKey) : Stroke → Finset PhysKey
  | .press k => insert k held
  | .release k => held.erase k

/-- The keys that are down after a run of strokes. -/
def held (strokes : List Stroke) : Finset PhysKey := strokes.foldl Stroke.after ∅

/-- The value of `esc` when the last byte of the key arrives. -/
def PhysKey.esc (k : PhysKey) : BitVec 32 := if k.extended then 1 else 0

/-- The key number the driver maps the key to. -/
def PhysKey.keyNumber (k : PhysKey) : BitVec 32 := scancodeToKey (k.code.setWidth 32) k.esc

/-- The modifier that the key is mapped to, 0 for most keys. -/
def PhysKey.modifier (k : PhysKey) : BitVec 32 := modOf k.keyNumber

/-! ## What the driver delivers -/

/-- The driver on a run of bytes, with the key events it delivers. -/
def decodeBytes (d : Decoder) : List (BitVec 8) → Decoder × List ModuleKeyEvent
  | [] => (d, [])
  | b :: bytes =>
      let (d, event) := decode d b
      let (d, events) := decodeBytes d bytes
      (d, event.toList ++ events)

/-- The driver after a run of strokes, from its initial state. -/
def driver (strokes : List Stroke) : Decoder × List ModuleKeyEvent :=
  decodeBytes ⟨0, 0⟩ (strokes.flatMap Stroke.bytes)

/-- The modifier bits of `keys.h`. -/
def modifiers : List (BitVec 32) := [modShift, modCtrl, modAlt, modAltGr, modOs]

/-- The modifier bits of an event are those of the held keys. -/
def ModsAgree (held : Finset PhysKey) (e : ModuleKeyEvent) : Prop :=
  ∀ m ∈ modifiers, e.key &&& m ≠ 0 ↔ ∃ k ∈ held, k.modifier = m

theorem decodeBytes_append (d : Decoder) (xs ys : List (BitVec 8)) :
    decodeBytes d (xs ++ ys) =
      ((decodeBytes (decodeBytes d xs).1 ys).1,
        (decodeBytes d xs).2 ++ (decodeBytes (decodeBytes d xs).1 ys).2) := by
  induction xs generalizing d with
  | nil => rfl
  | cons b xs ih => simp only [List.cons_append, decodeBytes, ih, List.append_assoc]

/-! ## Bits -/

theorem or_and_ne_zero (x y m : BitVec 32) :
    (x ||| y) &&& m ≠ 0 ↔ x &&& m ≠ 0 ∨ y &&& m ≠ 0 := by
  rw [BitVec.and_or_distrib_right]
  exact (not_congr BitVec.or_eq_zero_iff).trans not_and_or

theorem and_not_zero (x : BitVec 32) : x &&& ~~~(0 : BitVec 32) = x := by
  have hones : ~~~(0 : BitVec 32) = BitVec.allOnes 32 := by decide
  rw [hones, BitVec.and_allOnes]

theorem forall_modifiers {P : BitVec 32 → Prop} :
    (∀ m ∈ modifiers, P m) ↔ P modShift ∧ P modCtrl ∧ P modAlt ∧ P modAltGr ∧ P modOs := by
  simp [modifiers]

/-- The modifiers are different bits. -/
theorem modifiers_disjoint : ∀ a ∈ modifiers, ∀ b ∈ modifiers, a &&& b ≠ 0 ↔ a = b := by
  simp only [forall_modifiers]
  decide

/-- Clearing a modifier leaves the others. -/
theorem not_and_modifier : ∀ a ∈ modifiers, ∀ b ∈ modifiers,
    ~~~a &&& b = if a = b then 0 else b := by
  simp only [forall_modifiers]
  decide

theorem zero_ne_modifier : ∀ m ∈ modifiers, (0 : BitVec 32) ≠ m := by
  simp only [forall_modifiers]
  decide

/-- A key is mapped to a modifier, or to none. -/
theorem modOf_mem (key : BitVec 32) : modOf key = 0 ∨ modOf key ∈ modifiers := by
  unfold modOf
  split_ifs <;> simp [modifiers]

/-- A key number has no modifier bits. -/
theorem keyNumber_and (k : PhysKey) {m : BitVec 32} (hm : m ∈ modifiers) :
    k.keyNumber &&& m = 0 := by
  have hall : ∀ (extended : Bool) (code : BitVec 7),
      scancodeToKey (code.setWidth 32) (if extended then 1 else 0) &&& 0xF800 = 0 := by
    decide +kernel
  have hmask : ∀ m ∈ modifiers, 0xF800 &&& m = m := by
    simp only [forall_modifiers]
    decide
  have hkey : k.keyNumber &&& 0xF800 = 0 := hall k.extended k.code
  rw [← hmask m hm, ← BitVec.and_assoc, hkey]
  exact BitVec.zero_and

/-- **Every modifier but shift has one key.** -/
theorem modifier_inj {k l : PhysKey} (hk : k.modifier ∈ modifiers) (hshift : k.modifier ≠ modShift)
    (h : l.modifier = k.modifier) : l = k := by
  have hall : ∀ (extended : Bool) (code : BitVec 7),
      let m := modOf (scancodeToKey (code.setWidth 32) (if extended then 1 else 0))
      m ∈ modifiers → m ≠ modShift →
        extended = (m == modAltGr) ∧
          code = if m = modCtrl then 0x1D else if m = modOs then 0x5B else 0x38 := by
    decide +kernel
  have hkey := hall k.extended k.code hk hshift
  have hm : modOf (scancodeToKey (l.code.setWidth 32) (if l.extended then 1 else 0)) =
      modOf (scancodeToKey (k.code.setWidth 32) (if k.extended then 1 else 0)) := h
  have hother := hall l.extended l.code
  rw [hm] at hother
  replace hother := hother hk hshift
  cases k
  cases l
  simp only [PhysKey.mk.injEq]
  exact ⟨hother.1.trans hkey.1.symm, hother.2.trans hkey.2.symm⟩

/-! ## One stroke -/

/-- The modifier bits after a stroke. -/
def Stroke.mods (mods : BitVec 32) : Stroke → BitVec 32
  | .press k => mods ||| k.modifier
  | .release k => mods &&& ~~~k.modifier

/-- `released`. -/
def Stroke.released : Stroke → BitVec 32
  | .press _ => 0
  | .release _ => 1

/-- The event that a stroke delivers. -/
def Stroke.event (mods : BitVec 32) (s : Stroke) : ModuleKeyEvent :=
  let key := s.key.keyNumber ||| s.mods mods
  { key := key, codepoint := keyToCodepoint key, released := s.released }

/-- What the driver reads off the last byte. -/
theorem lastByte_fields (s : Stroke) :
    s.lastByte.setWidth 32 ≠ 0xE0 ∧ s.lastByte.setWidth 32 &&& 0x7F = s.key.code.setWidth 32 ∧
      (s.lastByte.setWidth 32 >>> 7) &&& 1 = s.released := by
  have hpress : ∀ code : BitVec 7, (code.setWidth 8).setWidth 32 ≠ (0xE0 : BitVec 32) ∧
      (code.setWidth 8).setWidth 32 &&& 0x7F = code.setWidth 32 ∧
      ((code.setWidth 8).setWidth 32 >>> 7) &&& 1 = (0 : BitVec 32) := by
    decide +kernel
  have hrelease : ∀ code : BitVec 7, code ≠ 0x60 →
      (code.setWidth 8 ||| 0x80).setWidth 32 ≠ (0xE0 : BitVec 32) ∧
      (code.setWidth 8 ||| 0x80).setWidth 32 &&& 0x7F = code.setWidth 32 ∧
      ((code.setWidth 8 ||| 0x80).setWidth 32 >>> 7) &&& 1 = (1 : BitVec 32) := by
    decide +kernel
  cases s with
  | press k => exact hpress k.code
  | release k => exact hrelease k.code k.code_ne

/-- The last byte delivers the event. -/
theorem decode_lastByte (mods : BitVec 32) (s : Stroke) :
    decode ⟨s.key.esc, mods⟩ s.lastByte = (⟨0, s.mods mods⟩, some (s.event mods)) := by
  obtain ⟨hescape, hcode, hreleased⟩ := lastByte_fields s
  unfold decode
  dsimp only
  rw [if_neg hescape, hcode, hreleased]
  have hmods : (if s.key.modifier ≠ 0 then
      if s.released ≠ 0 then mods &&& ~~~s.key.modifier else mods ||| s.key.modifier
    else mods) = s.mods mods := by
    -- the modifier 0 changes nothing, so the test for it can be left out
    by_cases hmod : s.key.modifier = 0
    · rw [if_neg (not_not_intro hmod)]
      cases s with
      | press k => rw [Stroke.mods, show k.modifier = 0 from hmod]; exact BitVec.or_zero.symm
      | release k => rw [Stroke.mods, show k.modifier = 0 from hmod, and_not_zero]
    · rw [if_pos hmod]
      cases s with
      | press k => rfl
      | release k => rfl
  unfold PhysKey.modifier PhysKey.keyNumber at hmods
  rw [hmods]
  rfl

/-- **A stroke delivers one event**, and sets or clears the bit of its key. -/
theorem decodeBytes_stroke (mods : BitVec 32) (s : Stroke) :
    decodeBytes ⟨0, mods⟩ s.bytes = (⟨0, s.mods mods⟩, [s.event mods]) := by
  have hlast := decode_lastByte mods s
  unfold Stroke.bytes
  by_cases hext : s.key.extended = true
  · have hesc : s.key.esc = 1 := if_pos hext
    have hescape : decode ⟨0, mods⟩ 0xE0 = (⟨1, mods⟩, none) := rfl
    rw [hesc] at hlast
    rw [if_pos hext, List.singleton_append, decodeBytes, hescape]
    dsimp only
    rw [decodeBytes, hlast]
    rfl
  · have hesc : s.key.esc = 0 := if_neg hext
    rw [hesc] at hlast
    rw [if_neg hext, List.nil_append, decodeBytes, hlast]
    rfl

/-! ## A run of strokes -/

/-- The modifier bits after a run. -/
def modsAfter (strokes : List Stroke) : BitVec 32 := strokes.foldl Stroke.mods 0

theorem modsAfter_append (strokes : List Stroke) (s : Stroke) :
    modsAfter (strokes ++ [s]) = s.mods (modsAfter strokes) := List.foldl_append

theorem driver_fst (strokes : List Stroke) : (driver strokes).1 = ⟨0, modsAfter strokes⟩ := by
  induction strokes using List.reverseRecOn with
  | nil => rfl
  | append_singleton strokes s ih =>
      unfold driver at ih ⊢
      rw [List.flatMap_append, decodeBytes_append, ih, List.flatMap_singleton, decodeBytes_stroke,
        modsAfter_append]

/-- The events of a longer run begin with those of the shorter one. -/
theorem driver_snd_append (strokes : List Stroke) (s : Stroke) :
    (driver (strokes ++ [s])).2 = (driver strokes).2 ++ [s.event (modsAfter strokes)] := by
  have hfst := driver_fst strokes
  unfold driver at hfst ⊢
  rw [List.flatMap_append, decodeBytes_append, hfst, List.flatMap_singleton, decodeBytes_stroke]

theorem held_append (strokes : List Stroke) (s : Stroke) :
    held (strokes ++ [s]) = s.after (held strokes) := List.foldl_append

/-- The event carries the bits after its stroke. -/
theorem event_key_and (mods : BitVec 32) (s : Stroke) {m : BitVec 32} (hm : m ∈ modifiers) :
    (s.event mods).key &&& m ≠ 0 ↔ s.mods mods &&& m ≠ 0 := by
  have hkey : (s.event mods).key = s.key.keyNumber ||| s.mods mods := rfl
  rw [hkey, or_and_ne_zero, keyNumber_and s.key hm]
  exact or_iff_right (not_not_intro rfl)

/-- The bits are those of the held keys. -/
def BitsAgree (mods : BitVec 32) (held : Finset PhysKey) : Prop :=
  ∀ m ∈ modifiers, mods &&& m ≠ 0 ↔ ∃ k ∈ held, k.modifier = m

/-- A release that leaves no other shift key down. -/
def Sole (held : Finset PhysKey) : Stroke → Prop
  | .press _ => True
  | .release k => k.modifier = modShift → ∀ l ∈ held, l.modifier = modShift → l = k

/-- A press sets the bit of its key. -/
theorem BitsAgree.press {mods : BitVec 32} {held : Finset PhysKey} (h : BitsAgree mods held)
    (k : PhysKey) : BitsAgree (mods ||| k.modifier) (insert k held) := by
  intro m hm
  rw [or_and_ne_zero, h m hm, Finset.exists_mem_insert, or_comm]
  refine or_congr_left ?_
  rcases modOf_mem k.keyNumber with hzero | hmem
  · have hnone : k.modifier = 0 := hzero
    rw [hnone]
    exact iff_of_false (not_not_intro BitVec.zero_and) (zero_ne_modifier m hm)
  · exact modifiers_disjoint _ hmem m hm

/-- A release clears the bit of its key and leaves the others. -/
theorem clear_and_ne_zero (mods : BitVec 32) (k : PhysKey) {m : BitVec 32} (hm : m ∈ modifiers) :
    mods &&& ~~~k.modifier &&& m ≠ 0 ↔ mods &&& m ≠ 0 ∧ k.modifier ≠ m := by
  rcases modOf_mem k.keyNumber with hzero | hmem
  · have hnone : k.modifier = 0 := hzero
    rw [hnone, and_not_zero]
    exact (and_iff_left (zero_ne_modifier m hm)).symm
  · have hclear : ~~~k.modifier &&& m = if k.modifier = m then 0 else m :=
      not_and_modifier _ hmem m hm
    rw [BitVec.and_assoc, hclear]
    split_ifs with hsame
    · simp [hsame]
    · simp [hsame]

/-- **A release keeps the bits right exactly if it leaves no other shift key
down**: the other modifiers have one key each. -/
theorem BitsAgree.release_iff {mods : BitVec 32} {held : Finset PhysKey} (h : BitsAgree mods held)
    (k : PhysKey) :
    BitsAgree (mods &&& ~~~k.modifier) (held.erase k) ↔ Sole held (.release k) := by
  constructor
  · intro hafter hshift l hl hlshift
    by_contra hne
    have hbit := (hafter modShift (by simp [modifiers])).mpr
      ⟨l, Finset.mem_erase.mpr ⟨hne, hl⟩, hlshift⟩
    exact ((clear_and_ne_zero mods k (by simp [modifiers])).mp hbit).2 hshift
  · intro hsole m hm
    rw [clear_and_ne_zero mods k hm, h m hm]
    constructor
    · rintro ⟨⟨l, hl, hlm⟩, hne⟩
      refine ⟨l, Finset.mem_erase.mpr ⟨?_, hl⟩, hlm⟩
      rintro rfl
      exact hne hlm
    · rintro ⟨l, hl, hlm⟩
      obtain ⟨hlk, hl⟩ := Finset.mem_erase.mp hl
      refine ⟨⟨l, hl, hlm⟩, fun hkm => hlk ?_⟩
      by_cases hshift : m = modShift
      · exact hsole (hkm.trans hshift) l hl (hlm.trans hshift)
      · exact modifier_inj (hkm ▸ hm) (hkm ▸ hshift) (hlm.trans hkm.symm)

/-- One stroke. -/
theorem BitsAgree.stroke_iff {mods : BitVec 32} {held : Finset PhysKey} (h : BitsAgree mods held)
    (s : Stroke) : BitsAgree (s.mods mods) (s.after held) ↔ Sole held s := by
  cases s with
  | press k => exact iff_of_true (h.press k) trivial
  | release k => exact h.release_iff k

/-! ## Every event of a run -/

/-- At every stroke of the run one event is delivered, and its modifier bits are
those of the keys that are then held. -/
def EventsAgree (strokes : List Stroke) : Prop :=
  ∀ pre s post, strokes = pre ++ s :: post →
    ∃ e, (driver (pre ++ [s])).2 = (driver pre).2 ++ [e] ∧ ModsAgree (held (pre ++ [s])) e

/-- No shift key is released while the other one is held. -/
def NoShiftLeftDown (strokes : List Stroke) : Prop :=
  ∀ pre s post, strokes = pre ++ s :: post → Sole (held pre) s

/-- The event of a stroke agrees if the bits after it do. -/
theorem modsAgree_event_iff (pre : List Stroke) (s : Stroke) :
    (∃ e, (driver (pre ++ [s])).2 = (driver pre).2 ++ [e] ∧ ModsAgree (held (pre ++ [s])) e) ↔
      BitsAgree (modsAfter (pre ++ [s])) (held (pre ++ [s])) := by
  rw [driver_snd_append, modsAfter_append]
  have hevent : ModsAgree (held (pre ++ [s])) (s.event (modsAfter pre)) ↔
      BitsAgree (s.mods (modsAfter pre)) (held (pre ++ [s])) :=
    forall₂_congr fun m hm => iff_congr (event_key_and _ s hm) Iff.rfl
  constructor
  · rintro ⟨e, he, hagree⟩
    have heq := List.append_cancel_left he
    rw [← List.singleton_injective heq] at hagree
    exact hevent.mp hagree
  · intro hbits
    exact ⟨_, rfl, hevent.mpr hbits⟩

/-- Without keys there are no bits. -/
theorem bitsAgree_start : BitsAgree (modsAfter []) (held []) := by
  intro m _
  have hnone : ¬ ∃ k ∈ held [], k.modifier = m := by
    rintro ⟨_, hk, _⟩
    exact absurd hk (Finset.notMem_empty _)
  exact iff_of_false (not_not_intro BitVec.zero_and) hnone

/-- In such a run the bits are right after every prefix. -/
theorem bitsAgree_along {strokes pre post : List Stroke} (h : NoShiftLeftDown strokes)
    (hsplit : strokes = pre ++ post) : BitsAgree (modsAfter pre) (held pre) := by
  induction pre using List.reverseRecOn generalizing post with
  | nil => exact bitsAgree_start
  | append_singleton pre s ih =>
      rw [List.append_assoc] at hsplit
      rw [modsAfter_append, held_append]
      exact ((ih hsplit).stroke_iff s).mpr (h pre s post hsplit)

/-- **The modifier bits are the set of held keys exactly in the runs that never
release one shift key while the other is held.** -/
theorem mods_agree_iff (strokes : List Stroke) :
    EventsAgree strokes ↔ NoShiftLeftDown strokes := by
  constructor
  · intro hagree pre s post hsplit
    have hbefore : BitsAgree (modsAfter pre) (held pre) := by
      rcases List.eq_nil_or_concat' pre with rfl | ⟨pre, last, rfl⟩
      · exact bitsAgree_start
      · rw [List.append_assoc] at hsplit
        exact (modsAgree_event_iff pre last).mp (hagree pre last _ hsplit)
    have hafter := (modsAgree_event_iff pre s).mp (hagree pre s post hsplit)
    rw [modsAfter_append, held_append] at hafter
    exact (hbefore.stroke_iff s).mp hafter
  · intro hsole pre s post hsplit
    have hlater : strokes = (pre ++ [s]) ++ post := by
      rw [hsplit, List.append_assoc]
      rfl
    exact (modsAgree_event_iff pre s).mpr (bitsAgree_along hsole hlater)

/-- The left shift key. -/
def leftShift : PhysKey := ⟨false, 0x2A, by decide⟩

/-- The right shift key. -/
def rightShift : PhysKey := ⟨false, 0x36, by decide⟩

/-- **Two shift keys down, one up**: the bit is clear although a shift key is
held. -/
theorem shift_left_down :
    rightShift ∈ held [.press leftShift, .press rightShift, .release leftShift] ∧
      modsAfter [.press leftShift, .press rightShift, .release leftShift] = 0 ∧
      ¬ EventsAgree [.press leftShift, .press rightShift, .release leftShift] := by
  have hheld : rightShift ∈ held [.press leftShift, .press rightShift, .release leftShift] := by
    decide
  have hmods : modsAfter [.press leftShift, .press rightShift, .release leftShift] = 0 := by decide
  refine ⟨hheld, hmods, fun hagree => ?_⟩
  have hbits := (modsAgree_event_iff [.press leftShift, .press rightShift] (.release leftShift)).mp
    (hagree _ _ [] rfl)
  have hset := (hbits modShift (by simp [modifiers])).mpr ⟨rightShift, hheld, by decide⟩
  exact hset (by rw [List.cons_append, List.singleton_append, hmods]; rfl)

end OsdevX64.Kernel
