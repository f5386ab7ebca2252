import OsdevX64.Kernel.Modifiers

/-!
# Typing

`key_to_codepoint` has no table of characters to compare it with; here the table is
searched for.  A character is typed by pressing and releasing the first key that gives
it, with shift or AltGr held where it needs one (`strokesOf`).

**What is typed is what arrives**: for every text of printable characters, backspaces,
tabs and line feeds the driver delivers the presses of just these characters, in order,
and is back in its initial state (`typing_delivers`).  No other character can arrive,
whatever is done with the keyboard (`keyToCodepoint_deliverable`).
-/

namespace OsdevX64.Kernel

/-! ## Characters and keys -/

/-- The key with a code below `0x60`. -/
def keyOfCode (code : Fin 0x60) : PhysKey where
  extended := false
  code := BitVec.ofNat 7 code
  code_ne h := by
    have hcode := congrArg BitVec.toNat h
    have hlt := code.isLt
    rw [BitVec.toNat_ofNat, Nat.mod_eq_of_lt (by omega)] at hcode
    change code.val = 0x60 at hcode
    omega

/-- The level on which a key is typed. -/
inductive Level
  | plain
  | shift
  | altGr
  deriving DecidableEq, Repr

/-- The key that is held for a level. -/
def Level.key : Level → Option PhysKey
  | .plain => none
  | .shift => some (keyOfCode 0x2A)
  | .altGr => some { keyOfCode 0x38 with extended := true }

/-- The modifier bits of a level. -/
def Level.mods : Level → BitVec 32
  | .plain => 0
  | .shift => modShift
  | .altGr => modAltGr

/-- Type a key. -/
def typeKey (level : Level) (k : PhysKey) : List Stroke :=
  level.key.toList.map .press ++ [.press k, .release k] ++ level.key.toList.map .release

/-- The first level and key that give a character. -/
def keyFor (c : BitVec 32) : Option (Level × Fin 0x60) :=
  ([.plain, .shift, .altGr].flatMap fun level => (List.finRange 0x60).map (level, ·)).find?
    fun p => keyToCodepoint ((keyOfCode p.2).keyNumber ||| p.1.mods) = c

/-- The strokes for a character. -/
def strokesOf (b : BitVec 8) : List Stroke :=
  match keyFor (b.setWidth 32) with
  | some p => typeKey p.1 (keyOfCode p.2)
  | none => []

/-- The strokes for a text. -/
def strokesOfText (text : List (BitVec 8)) : List Stroke := text.flatMap strokesOf

/-- A character that has a key: printable, a backspace, a tab or a line feed. -/
def Typable (b : BitVec 8) : Prop :=
  b = 8 ∨ b = 9 ∨ b = 10 ∨ (32 ≤ b.toNat ∧ b.toNat ≤ 126)

instance (b : BitVec 8) : Decidable (Typable b) :=
  inferInstanceAs (Decidable (b = 8 ∨ b = 9 ∨ b = 10 ∨ (32 ≤ b.toNat ∧ b.toNat ≤ 126)))

/-- The characters of the presses among key events. -/
def charsTyped (events : List ModuleKeyEvent) : List (BitVec 32) :=
  (events.filter fun e => e.released = 0 ∧ e.codepoint ≠ 0).map ModuleKeyEvent.codepoint

/-! ## One character -/

/-- **The strokes for a character deliver it** and leave no modifier down. -/
theorem strokesOf_delivers : ∀ b : BitVec 8, Typable b →
    (driver (strokesOf b)).1 = ⟨0, 0⟩ ∧
      charsTyped (driver (strokesOf b)).2 = [b.setWidth 32] := by
  decide +kernel

/-! ## A text -/

theorem charsTyped_append (events more : List ModuleKeyEvent) :
    charsTyped (events ++ more) = charsTyped events ++ charsTyped more := by
  unfold charsTyped
  rw [List.filter_append, List.map_append]

/-- **What is typed is what arrives.** -/
theorem text_delivered {text : List (BitVec 8)} (h : ∀ b ∈ text, Typable b) :
    (driver (strokesOfText text)).1 = ⟨0, 0⟩ ∧
      charsTyped (driver (strokesOfText text)).2 = text.map (BitVec.setWidth 32) := by
  induction text with
  | nil => exact ⟨rfl, rfl⟩
  | cons b text ih =>
      obtain ⟨hb, hrest⟩ := List.forall_mem_cons.mp h
      obtain ⟨hfst, hsnd⟩ := strokesOf_delivers b hb
      obtain ⟨hfst', hsnd'⟩ := ih hrest
      unfold driver at hfst hsnd hfst' hsnd' ⊢
      rw [strokesOfText, List.flatMap_cons, List.flatMap_append, decodeBytes_append, hfst]
      exact ⟨hfst', by rw [charsTyped_append, hsnd]; exact congrArg _ hsnd'⟩

/-! ## No other character -/

/-- A character that a key can have, or none. -/
def Deliverable (c : BitVec 32) : Prop :=
  c = 0 ∨ c = 8 ∨ c = 9 ∨ c = 10 ∨ (32 ≤ c.toNat ∧ c.toNat ≤ 126)

instance (c : BitVec 32) : Decidable (Deliverable c) :=
  inferInstanceAs (Decidable (c = 0 ∨ c = 8 ∨ c = 9 ∨ c = 10 ∨ (32 ≤ c.toNat ∧ c.toNat ≤ 126)))

theorem letterToCodepoint_deliverable {k nomods : BitVec 32} (hlow : keyA ≤ nomods)
    (hhigh : nomods ≤ keyZ) : Deliverable (letterToCodepoint k nomods) := by
  have hlow' : 4 ≤ nomods.toNat := hlow
  have hhigh' : nomods.toNat ≤ 29 := hhigh
  have hall : ∀ n < 30, 4 ≤ n →
      let c := BitVec.ofNat 32 n - keyA + 0x61
      let c := if c = 0x7A then 0x79 else if c = 0x79 then 0x7A else c
      Deliverable c ∧ Deliverable (toupper c) := by
    decide
  obtain ⟨hplain, hupper⟩ := hall nomods.toNat (by omega) hlow'
  rw [BitVec.ofNat_toNat, BitVec.setWidth_eq] at hplain hupper
  unfold letterToCodepoint
  dsimp only
  generalize (if nomods - keyA + 0x61 = 0x7A then (0x79 : BitVec 32)
    else if nomods - keyA + 0x61 = 0x79 then 0x7A else nomods - keyA + 0x61) = c
    at hplain hupper ⊢
  split_ifs
  · decide
  · exact hupper
  · exact hplain

theorem deliverable_getD {l : List (BitVec 32)} (h : l.all fun c => Deliverable c) (i : ℕ) :
    Deliverable (l.getD i 0) := by
  rw [List.getD_eq_getElem?_getD]
  cases hi : l[i]? with
  | none => exact Or.inl rfl
  | some c => exact of_decide_eq_true (List.all_eq_true.mp h c (List.mem_of_getElem? hi))

theorem numberToCodepoint_deliverable (k nomods : BitVec 32) :
    Deliverable (numberToCodepoint k nomods) := by
  unfold numberToCodepoint
  dsimp only
  split_ifs
  · exact deliverable_getD (by decide) _
  · exact deliverable_getD (by decide) _
  · exact deliverable_getD (by decide) _

theorem deliverable_ite {p : Prop} [Decidable p] {a b : BitVec 32} (ha : p → Deliverable a)
    (hb : Deliverable b) : Deliverable (if p then a else b) := by
  split_ifs with h
  · exact ha h
  · exact hb

/-- **No key has any other character**, with any modifier bits. -/
theorem keyToCodepoint_deliverable (k : BitVec 32) : Deliverable (keyToCodepoint k) := by
  unfold keyToCodepoint
  dsimp only
  -- every branch but those of the letters and the numbers is a constant
  iterate 22 refine deliverable_ite (fun _ => by decide) ?_
  refine deliverable_ite (fun h => letterToCodepoint_deliverable h.1 h.2) ?_
  exact deliverable_ite (fun _ => numberToCodepoint_deliverable _ _) (by decide)

theorem decode_deliverable (d : Decoder) (b : BitVec 8) :
    ∀ e ∈ (decode d b).2.toList, Deliverable e.codepoint := by
  unfold decode
  dsimp only
  by_cases hescape : b.setWidth 32 = (0xE0 : BitVec 32)
  · rw [if_pos hescape]
    exact fun e he => absurd he List.not_mem_nil
  · rw [if_neg hescape]
    exact List.forall_mem_singleton.mpr (keyToCodepoint_deliverable _)

theorem decodeBytes_deliverable (d : Decoder) (bytes : List (BitVec 8)) :
    ∀ e ∈ (decodeBytes d bytes).2, Deliverable e.codepoint := by
  induction bytes generalizing d with
  | nil => exact fun e he => absurd he List.not_mem_nil
  | cons b bytes ih => exact List.forall_mem_append.mpr ⟨decode_deliverable d b, ih _⟩

/-- **The keyboard delivers what is typed and nothing else.**  Every text of typable
characters arrives when its strokes are made, and the driver is back in its initial
state; and whatever bytes the keyboard sends, from any state of the driver, every
character that arrives is a typable one, or none. -/
theorem typing_delivers :
    (∀ text : List (BitVec 8), (∀ b ∈ text, Typable b) →
      (driver (strokesOfText text)).1 = ⟨0, 0⟩ ∧
        charsTyped (driver (strokesOfText text)).2 = text.map (BitVec.setWidth 32)) ∧
    ∀ (d : Decoder) (bytes : List (BitVec 8)), ∀ c ∈ charsTyped (decodeBytes d bytes).2,
      ∃ b : BitVec 8, Typable b ∧ c = b.setWidth 32 := by
  refine ⟨fun text => text_delivered, fun d bytes c hc => ?_⟩
  obtain ⟨e, he, rfl⟩ := List.mem_map.mp hc
  obtain ⟨hmem, hpress⟩ := List.mem_filter.mp he
  have hne : e.codepoint ≠ 0 := (of_decide_eq_true hpress).2
  refine ⟨e.codepoint.setWidth 8, ?_⟩
  rcases decodeBytes_deliverable d bytes e hmem with h | h | h | h | ⟨hlow, hhigh⟩
  · exact absurd h hne
  · rw [h]
    decide
  · rw [h]
    decide
  · rw [h]
    decide
  · have hbyte : (e.codepoint.setWidth 8).toNat = e.codepoint.toNat := by
      rw [BitVec.toNat_setWidth, Nat.mod_eq_of_lt (by omega)]
    refine ⟨Or.inr (Or.inr (Or.inr (by omega))), BitVec.eq_of_toNat_eq ?_⟩
    rw [BitVec.toNat_setWidth, hbyte, Nat.mod_eq_of_lt (by omega)]

end OsdevX64.Kernel
