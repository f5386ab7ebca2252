import OsdevX64.Console.Glyph
import OsdevX64.Console.Terminus16
import OsdevX64.Lib.GuardedRun
import OsdevX64.Stdio.Output

/-!
# The tables behind the text

`terminal_print` takes its characters from a `char`, which is signed: a byte with
the top bit set arrives in `terminal_char` as a number just below `2 ^ 32`, and a
control character as itself.  Neither has a glyph in `Terminus16`, and the upper
bits of the former end up in the colours of its cell.

`InRange` says that every lookup so far was in its table and that every cell holds
what a redraw can look up.  **It holds in every state exactly if every byte
printed is a backspace, a newline or one of the characters from 32 to 127**
(`lookups_in_range_iff`).
-/

namespace OsdevX64.Console

open ByteMemory MachineInt CLib GuardedRun
open Stdio (CString)

/-! ## Printing -/

/-- `c = *s++`, from a signed `char` to a `uint32_t`. -/
def charArg (b : Byte) : ℕ := (b.signExtend 32).toNat

/-- `terminal_print`; the loop ends at the NUL behind the string. -/
def terminalPrint (s : Screen) (text : CString) : Screen :=
  text.bytes.foldl (fun s b => terminalChar s (charArg b)) s

/-- What the kernel asks of its console. -/
inductive Request
  | print (text : CString)
  | setColor (fg bg : ℕ)
  | setFg (fg : ℕ)
  | setBg (bg : ℕ)

/-- One request. -/
def Request.apply (s : Screen) : Request → Screen
  | .print text => terminalPrint s text
  | .setColor fg bg => terminalSetColor s fg bg
  | .setFg fg => terminalSetFg s fg
  | .setBg bg => terminalSetBg s bg

/-- Colours are set to values of the table. -/
def Request.ColorsInTable : Request → Prop
  | .print _ => True
  | .setColor fg bg => fg ≤ 7 ∧ bg ≤ 7
  | .setFg fg => fg ≤ 7
  | .setBg bg => bg ≤ 7

/-- A byte that `terminal_char` handles itself or that has a glyph. -/
def Printable (b : Byte) : Prop := b = 8 ∨ b = 10 ∨ (32 ≤ b.toNat ∧ b.toNat ≤ 127)

instance (b : Byte) : Decidable (Printable b) :=
  inferInstanceAs (Decidable (b = 8 ∨ b = 10 ∨ (32 ≤ b.toNat ∧ b.toNat ≤ 127)))

/-- Only such bytes are printed. -/
def Request.PrintsInTable : Request → Prop
  | .print text => ∀ b ∈ text.bytes, Printable b
  | _ => True

/-! ## In range -/

/-- A glyph that the tables know. -/
structure Glyph.InTables (g : Glyph) : Prop where
  c : 32 ≤ g.c ∧ g.c ≤ 132
  fg : g.fg ≤ 7
  bg : g.bg ≤ 7

theorem Glyph.InTables.fits {g : Glyph} (hg : g.InTables) : g.Fits where
  c := Nat.lt_of_le_of_lt hg.c.2 (by decide)
  fg := Nat.lt_of_le_of_lt hg.fg (by decide)
  bg := Nat.lt_of_le_of_lt hg.bg (by decide)

/-- Every lookup so far was in its table, and every cell is in the tables. -/
structure InRange (s : Screen) : Prop where
  glyphs : ∀ o ∈ s.graphics.font.reads, o < terminus16.length
  colors : ∀ i ∈ s.lookups, i < gfxColors.length
  cells : ∀ k < s.terminal.size, (Glyph.ofEntry (half s.terminal.buffer.cell k)).InTables

/-- Sizes that fit together, and current colours of the table. -/
structure Ready (s : Screen) : Prop where
  size : s.terminal.size = s.terminal.width * s.terminal.height
  size_lt : s.terminal.size < 2 ^ 32
  fg : s.terminal.fg ≤ 7
  bg : s.terminal.bg ≤ 7

theorem Ready.of_sameFrame {s s' : Screen} (hr : Ready s)
    (hf : SameFrame s.terminal s'.terminal) : Ready s' where
  size := by rw [hf.size, hf.width, hf.height, hr.size]
  size_lt := hf.size.trans_lt hr.size_lt
  fg := hf.fg.trans_le hr.fg
  bg := hf.bg.trans_le hr.bg

/-- A space in the current colours. -/
theorem Ready.blank {s : Screen} (hr : Ready s) :
    (Glyph.mk 32 s.terminal.fg s.terminal.bg).InTables :=
  ⟨(by decide : 32 ≤ 32 ∧ 32 ≤ 132), hr.fg, hr.bg⟩

/-! ## What drawing looks up -/

theorem charRows_reads (g : Graphics) (fb charBitmap : ℕ) (fg bg : BitVec 32) (rows : ℕ) :
    (charRows g fb charBitmap fg bg rows).font.reads =
      ((List.range rows).map (charBitmap + ·)).reverse ++ g.font.reads := by
  induction rows generalizing g fb charBitmap with
  | zero => rfl
  | succ rows ih =>
      rw [charRows]
      dsimp only
      rw [ih, List.range_succ_eq_map]
      simp [Tracked.read, Function.comp_def, Nat.add_assoc, Nat.add_comm 1]

/-- A glyph is read from its 16 bytes. -/
theorem mem_graphicsChar_reads (g : Graphics) (x y c : ℕ) (fg bg : BitVec 32) (o : ℕ) :
    o ∈ (graphicsChar g x y c fg bg).font.reads ↔
      (∃ r < 16, o = u32 (sub32 c 32 * 16) + r) ∨ o ∈ g.font.reads := by
  unfold graphicsChar
  rw [charRows_reads, List.mem_append, List.mem_reverse, List.mem_map]
  simp only [List.mem_range, eq_comm]

/-- The characters of the table have their glyphs in it. -/
theorem glyph_inTable {c r : ℕ} (hc : 32 ≤ c ∧ c ≤ 132) (hr : r < 16) :
    u32 (sub32 c 32 * 16) + r < terminus16.length := by
  have hlength : terminus16.length = 1616 := by decide +kernel
  rw [hlength, sub32_of_le hc.1, u32_of_lt (by omega)]
  omega

/-- A put looks up one glyph and two colours, and stores what it looked up. -/
theorem terminalPut_inRange {s : Screen} (hs : InRange s) {c fg bg : ℕ}
    (hg : (Glyph.mk c fg bg).InTables) (x y : ℕ) : InRange (terminalPut s c fg bg x y) where
  glyphs o ho := by
    rcases (mem_graphicsChar_reads _ _ _ _ _ _ o).mp ho with ⟨r, hr, rfl⟩ | ho
    · exact glyph_inTable hg.c hr
    · exact hs.glyphs o ho
  colors i hi := by
    rcases List.mem_cons.mp hi with rfl | hi
    · exact Nat.lt_succ_of_le hg.bg
    rcases List.mem_cons.mp hi with rfl | hi
    · exact Nat.lt_succ_of_le hg.fg
    · exact hs.colors i hi
  cells k hk := by
    have hcell : half (terminalPut s c fg bg x y).terminal.buffer.cell k =
        if k = s.terminal.index x y then (Glyph.mk c fg bg).entry % 2 ^ 16
        else half s.terminal.buffer.cell k := half_storeLE _ _ _ _
    rw [hcell]
    split_ifs
    · rw [Nat.mod_eq_of_lt (Glyph.entry_lt _), Glyph.ofEntry_entry hg.fits]
      exact hg
    · exact hs.cells k hk

theorem terminalCursor_inRange {s : Screen} (hs : InRange s) {color : ℕ} (hcolor : color ≤ 7) :
    InRange (terminalCursor s color) := by
  unfold terminalCursor
  dsimp only
  split_ifs
  · exact hs
  · exact hs
  · refine ⟨hs.glyphs, fun i hi => ?_, hs.cells⟩
    rcases List.mem_cons.mp hi with rfl | hi
    · exact Nat.lt_succ_of_le hcolor
    · exact hs.colors i hi

/-! ## The scroll -/

theorem redrawCell_inRange {s : Screen} (hr : Ready s) (hs : InRange s) {x y : ℕ}
    (hx : x < s.terminal.width) (hy : y < s.terminal.height) : InRange (redrawCell s x y) := by
  have hcell := cell_lt hx hy
  have hsize := hr.size_lt
  rw [hr.size] at hsize
  rw [← Terminal.index_eq hsize hx hy, ← hr.size] at hcell
  have hread : InRange
      (s.setBuffer (s.terminal.buffer.loadBytes (2 * s.terminal.index x y) 2).2) :=
    ⟨hs.glyphs, hs.colors, hs.cells⟩
  exact terminalPut_inRange hread (hs.cells _ hcell) x y

theorem redraw_inRange {s : Screen} (hr : Ready s) (hs : InRange s) : InRange (redraw s) := by
  have hkeep : InRange (redraw s) ∧ SameFrame s.terminal (redraw s).terminal := by
    unfold redraw
    refine List.foldlRecOn (motive := fun r : Screen => InRange r ∧
      SameFrame s.terminal r.terminal) _ _ ⟨hs, (SameText.refl _).frame⟩ ?_
    intro r hrow y hy
    refine List.foldlRecOn (motive := fun r : Screen => InRange r ∧
      SameFrame s.terminal r.terminal) _ _ hrow ?_
    rintro q ⟨hq, hframe⟩ x hx
    rw [List.mem_range] at hx hy
    rw [hrow.2.width, ← hframe.width] at hx
    rw [← hframe.height] at hy
    exact ⟨redrawCell_inRange (hr.of_sameFrame hframe) hq hx hy,
      hframe.trans (redrawCell_sameText q x y).frame⟩
  exact hkeep.1

/-- The scroll moves cells up and blanks the rest. -/
theorem scrollBuffer_inTables {s : Screen} (hr : Ready s) (hs : InRange s) :
    ∀ k < s.terminal.size,
      (Glyph.ofEntry (half (scrollBuffer s.terminal).cell k)).InTables := by
  intro k hk
  have hrow : s.terminal.width ≤ s.terminal.size := by
    rw [hr.size] at hk ⊢
    exact Nat.le_mul_of_pos_right _ (Nat.pos_of_mul_pos_left (Nat.zero_lt_of_lt hk))
  rw [half_scrollBuffer hrow hk]
  split_ifs with hmoved
  · exact hs.cells _ hmoved
  · rw [Glyph.ofEntry_entry hr.blank.fits]
    exact hr.blank

theorem scroll_inRange {s : Screen} (hr : Ready s) (hs : InRange s) : InRange (scroll s) := by
  have hmoved : InRange (s.setBuffer (scrollBuffer s.terminal)) :=
    ⟨hs.glyphs, hs.colors, scrollBuffer_inTables hr hs⟩
  obtain ⟨hglyphs, hcolors, hcells⟩ := redraw_inRange
    (hr.of_sameFrame (setBuffer_frame s (scrollBuffer s.terminal))) hmoved
  exact ⟨hglyphs, hcolors, hcells⟩

/-! ## One character -/

theorem typed_inRange {s : Screen} (hr : Ready s) (hs : InRange s) {c : ℕ}
    (hc : c = 8 ∨ c = 10 ∨ (32 ≤ c ∧ c ≤ 127)) : InRange (typed s c) := by
  unfold typed
  split_ifs with hback hline
  · exact terminalPut_inRange (s := s.moveTo s.terminal.stepBack.1 s.terminal.stepBack.2)
      ⟨hs.glyphs, hs.colors, hs.cells⟩ hr.blank _ _
  · exact ⟨hs.glyphs, hs.colors, hs.cells⟩
  · have hput : InRange (terminalPut s c s.terminal.fg s.terminal.bg s.terminal.x s.terminal.y) :=
      terminalPut_inRange hs ⟨(by omega : 32 ≤ c ∧ c ≤ 132), hr.fg, hr.bg⟩ _ _
    rw [putAdvance_eq]
    split_ifs
    · exact ⟨hput.glyphs, hput.colors, hput.cells⟩
    · exact ⟨hput.glyphs, hput.colors, hput.cells⟩

/-- **A character with a glyph keeps every lookup in range.** -/
theorem terminalChar_inRange {s : Screen} (hr : Ready s) (hs : InRange s) {c : ℕ}
    (hc : c = 8 ∨ c = 10 ∨ (32 ≤ c ∧ c ≤ 127)) : InRange (terminalChar s c) := by
  have hframe := typed_frame (erased s c) c
  have hcursor := terminalCursor_inRange hs hr.bg
  have hready : Ready (erased s c) := hr.of_sameFrame (erased_frame s c)
  have herased : InRange (erased s c) := ⟨hcursor.glyphs, hcursor.colors, hcursor.cells⟩
  have htyped := typed_inRange hready herased hc
  rw [terminalChar_eq]
  generalize typed (erased s c) c = q at hframe htyped
  have hq := hready.of_sameFrame hframe
  dsimp only
  split_ifs
  · exact terminalCursor_inRange (scroll_inRange hq htyped)
      (hq.of_sameFrame (scroll_frame q).1).fg
  · exact terminalCursor_inRange htyped hq.fg

/-! ## What went wrong stays wrong -/

/-- The glyph bytes that were read. -/
def Screen.glyphReads (s : Screen) : List ℕ := s.graphics.font.reads

theorem glyphReads_terminalPut (s : Screen) (c fg bg x y : ℕ) :
    s.glyphReads <:+ (terminalPut s c fg bg x y).glyphReads := by
  refine ⟨_, (charRows_reads _ _ _ _ _ _).symm⟩

theorem glyphReads_terminalCursor (s : Screen) (color : ℕ) :
    (terminalCursor s color).glyphReads = s.glyphReads := by
  unfold terminalCursor
  dsimp only
  split_ifs <;> rfl

theorem glyphReads_scroll (s : Screen) : s.glyphReads <:+ (scroll s).glyphReads := by
  have hredraw (q : Screen) : q.glyphReads <:+ (redraw q).glyphReads := by
    unfold redraw
    refine List.foldlRecOn (motive := fun r : Screen => q.glyphReads <:+ r.glyphReads) _ _
      List.suffix_rfl ?_
    intro r hrow y _
    refine List.foldlRecOn (motive := fun r : Screen => q.glyphReads <:+ r.glyphReads) _ _ hrow ?_
    intro r' hr' x _
    exact hr'.trans (glyphReads_terminalPut _ _ _ _ _ _)
  exact hredraw (s.setBuffer (scrollBuffer s.terminal))

/-- What was read stays read. -/
theorem glyphReads_terminalChar (s : Screen) (c : ℕ) :
    (typed (erased s c) c).glyphReads <:+
      (terminalChar s c).glyphReads := by
  rw [terminalChar_eq]
  dsimp only
  rw [glyphReads_terminalCursor]
  split_ifs
  · exact glyphReads_scroll _
  · exact List.suffix_rfl

theorem glyphReads_typed (s : Screen) (c : ℕ) : s.glyphReads <:+ (typed s c).glyphReads := by
  unfold typed
  rw [putAdvance_eq]
  split_ifs
  · exact glyphReads_terminalPut _ _ _ _ _ _
  · exact List.suffix_rfl
  · exact glyphReads_terminalPut _ _ _ _ _ _
  · exact glyphReads_terminalPut _ _ _ _ _ _

/-- A glyph byte outside the table was read. -/
def Strayed (s : Screen) : Prop := ∃ o ∈ s.glyphReads, terminus16.length ≤ o

theorem Strayed.terminalChar {s : Screen} (hs : Strayed s) (c : ℕ) :
    Strayed (terminalChar s c) := by
  obtain ⟨o, ho, hout⟩ := hs
  rw [← glyphReads_terminalCursor s s.terminal.bg] at ho
  exact ⟨o, (glyphReads_terminalChar s c).subset ((glyphReads_typed _ c).subset ho), hout⟩

theorem Strayed.not_inRange {s : Screen} (hs : Strayed s) : ¬ InRange s := by
  obtain ⟨o, ho, hout⟩ := hs
  exact fun h => absurd (h.glyphs o ho) (Nat.not_lt.mpr hout)

/-- A character is read from where its glyph would be. -/
theorem mem_glyphReads_terminalChar (s : Screen) {c : ℕ} (hback : c ≠ 8) (hline : c ≠ 10) :
    u32 (sub32 c 32 * 16) ∈ (terminalChar s c).glyphReads := by
  refine (glyphReads_terminalChar s c).subset ?_
  unfold typed
  rw [if_neg hback, if_neg hline, putAdvance_eq]
  generalize erased s c = q
  have hput : u32 (sub32 c 32 * 16) ∈
      (terminalPut q c q.terminal.fg q.terminal.bg q.terminal.x q.terminal.y).glyphReads :=
    (mem_graphicsChar_reads _ _ _ _ _ _ _).mpr (.inl ⟨0, by decide, rfl⟩)
  split_ifs
  · exact hput
  · exact hput

/-! ## Bytes -/

/-- The sign extension moves the upper half of the bytes to the end of 32 bits. -/
theorem charArg_eq (b : Byte) :
    charArg b = if b.toNat < 128 then b.toNat else b.toNat + (2 ^ 32 - 256) := by
  revert b
  decide +kernel

theorem charArg_of_printable {b : Byte} (hb : Printable b) :
    charArg b = 8 ∨ charArg b = 10 ∨ (32 ≤ charArg b ∧ charArg b ≤ 127) := by
  rw [charArg_eq]
  obtain rfl | rfl | hb := hb
  · exact .inl rfl
  · exact .inr (.inl rfl)
  · rw [if_pos (by omega)]
    exact .inr (.inr hb)

/-- **A byte without a glyph is looked up behind the table.** -/
theorem strayed_of_not_printable (s : Screen) {b : Byte} (hb : ¬ Printable b) :
    Strayed (terminalChar s (charArg b)) := by
  have hback : b.toNat ≠ 8 := fun h => hb (.inl (BitVec.eq_of_toNat_eq h))
  have hline : b.toNat ≠ 10 := fun h => hb (.inr (.inl (BitVec.eq_of_toNat_eq h)))
  have hrange : b.toNat < 32 ∨ 127 < b.toNat := by
    by_contra hin
    exact hb (.inr (.inr (by omega)))
  have hlt := b.isLt
  have hlength : terminus16.length = 1616 := by decide +kernel
  have harg := charArg_eq b
  -- below 32 the index of the glyph wraps once, above 127 its offset does
  have hout : 1616 ≤ u32 (sub32 (charArg b) 32 * 16) := by
    unfold u32 sub32
    rcases hrange with hlow | hhigh
    · rw [if_pos (by omega)] at harg
      rw [harg, if_neg (by omega)]
      omega
    · rw [if_neg (by omega)] at harg
      rw [harg, if_pos (by omega)]
      omega
  have hmem := mem_glyphReads_terminalChar s (c := charArg b)
    (by rw [harg]; split_ifs <;> omega) (by rw [harg]; split_ifs <;> omega)
  exact ⟨_, hmem, by rw [hlength]; exact hout⟩

/-! ## Strings -/

theorem terminalPrint_frame (s : Screen) (text : CString) :
    SameFrame s.terminal (terminalPrint s text).terminal := by
  unfold terminalPrint
  refine List.foldlRecOn (motive := fun q : Screen => SameFrame s.terminal q.terminal) _ _
    (SameText.refl _).frame ?_
  intro q hq b _
  exact hq.trans (terminalChar_frame q (charArg b))

theorem terminalPrint_inRange {s : Screen} (hr : Ready s) (hs : InRange s) {text : CString}
    (htext : ∀ b ∈ text.bytes, Printable b) : InRange (terminalPrint s text) := by
  have hkeep : Ready (terminalPrint s text) ∧ InRange (terminalPrint s text) := by
    unfold terminalPrint
    refine List.foldlRecOn (motive := fun q : Screen => Ready q ∧ InRange q) _ _ ⟨hr, hs⟩ ?_
    rintro q ⟨hq, hin⟩ b hb
    exact ⟨hq.of_sameFrame (terminalChar_frame q _),
      terminalChar_inRange hq hin (charArg_of_printable (htext b hb))⟩
  exact hkeep.2

theorem strayed_print (s : Screen) {text : List Byte} (htext : ¬ ∀ b ∈ text, Printable b) :
    Strayed (text.foldl (fun s b => terminalChar s (charArg b)) s) := by
  induction text generalizing s with
  | nil => exact absurd (fun b hb => absurd hb List.not_mem_nil) htext
  | cons b text ih =>
      rw [List.foldl_cons]
      by_cases hb : Printable b
      · refine ih _ fun hrest => htext fun b' hb' => ?_
        rcases List.mem_cons.mp hb' with rfl | hb'
        · exact hb
        · exact hrest b' hb'
      -- the rest of the string does not undo the lookup
      · refine List.foldlRecOn (motive := Strayed) _ _ (strayed_of_not_printable s hb) ?_
        intro q hq b' _
        exact hq.terminalChar _

/-! ## Runs -/

theorem request_guarded :
    GuardedAt Request.apply Request.ColorsInTable Ready InRange
      (fun _ => Request.PrintsInTable) where
  stable s r hready hcolors := by
    cases r with
    | print text => exact hready.of_sameFrame (terminalPrint_frame s text)
    | setColor fg bg => exact ⟨hready.size, hready.size_lt, hcolors.1, hcolors.2⟩
    | setFg fg => exact ⟨hready.size, hready.size_lt, hcolors, hready.bg⟩
    | setBg bg => exact ⟨hready.size, hready.size_lt, hready.fg, hcolors⟩
  keeps s r hready _ hs hguard := by
    cases r with
    | print text => exact terminalPrint_inRange hready hs hguard
    | setColor fg bg => exact ⟨hs.glyphs, hs.colors, hs.cells⟩
    | setFg fg => exact ⟨hs.glyphs, hs.colors, hs.cells⟩
    | setBg bg => exact ⟨hs.glyphs, hs.colors, hs.cells⟩
  breaks s r _ _ _ hguard := by
    cases r with
    | print text => exact (strayed_print s hguard).not_inRange
    | setColor fg bg => exact absurd trivial hguard
    | setFg fg => exact absurd trivial hguard
    | setBg bg => exact absurd trivial hguard

theorem terminalInit_inRange {s : Screen} (hreads : s.graphics.font.reads = [])
    (hlookups : s.lookups = []) (heap : Memory ℕ) {w h : ℕ} (hsize : w / 8 * (h / 16) < 2 ^ 32) :
    Ready (terminalInit s heap w h) ∧ InRange (terminalInit s heap w h) := by
  have hsize' : u32 (w / 8 * (h / 16)) = w / 8 * (h / 16) := u32_of_lt hsize
  refine ⟨⟨hsize', hsize'.trans_lt hsize, (by decide : 7 ≤ 7), (by decide : 0 ≤ 7)⟩, ?_, ?_, ?_⟩
  · intro o ho
    rw [show (terminalInit s heap w h).graphics.font.reads = [] from hreads] at ho
    exact absurd ho List.not_mem_nil
  · intro i hi
    rw [show (terminalInit s heap w h).lookups = [] from hlookups] at hi
    exact absurd hi List.not_mem_nil
  · intro k hk
    have hhalf := memset16_half (Tracked.fresh heap) 0
      (Glyph.mk 32 terminalWhite terminalBlack).entry (u32 (w / 8 * (h / 16))) k
    rw [if_pos ⟨Nat.zero_le k, (Nat.zero_add _).symm ▸ hk⟩] at hhalf
    have hblank : Glyph.ofEntry (half (terminalInit s heap w h).terminal.buffer.cell k) =
        ⟨32, terminalWhite, terminalBlack⟩ := (congrArg Glyph.ofEntry hhalf).trans (by decide)
    rw [hblank]
    exact ⟨by decide, by decide, by decide⟩

/-- **The lookups stay in their tables exactly if every byte printed has a glyph**
or is a backspace or a newline, in every state of every run. -/
theorem lookups_in_range_iff {w h : ℕ} (hw : w ≤ 65535) (hh : h ≤ 65535)
    (framebuffer : ℕ → BitVec 32) (font heap : Memory ℕ) (pitch : Fin (2 ^ 16))
    (requests : List Request) (hcolors : ∀ r ∈ requests, r.ColorsInTable) :
    let s := terminalInit (Screen.boot framebuffer font pitch) heap w h
    (∀ pre, pre <+: requests → InRange (pre.foldl Request.apply s)) ↔
      ∀ r ∈ requests, r.PrintsInTable := by
  intro s
  have hmul : w / 8 * (h / 16) ≤ 2 ^ 13 * 2 ^ 12 := Nat.mul_le_mul (by omega) (by omega)
  obtain ⟨hready, hrange⟩ := terminalInit_inRange (s := Screen.boot framebuffer font pitch)
    rfl rfl heap (w := w) (h := h) (by omega)
  rw [request_guarded.good_iff hready hrange hcolors, guarded_const_iff]

theorem lookups_in_range_iff_greeting :
    let s := terminalInit (Screen.boot (fun _ => 0) (fun _ => 0) 16) (fun _ => 0) 16 32
    let requests := [Request.print ⟨[72, 105, 10], by decide⟩, .setColor 2 0,
      .print ⟨[126, 8], by decide⟩]
    (∀ pre, pre <+: requests → InRange (pre.foldl Request.apply s)) ↔
      ∀ r ∈ requests, r.PrintsInTable :=
  lookups_in_range_iff (by decide) (by decide) _ _ _ 16 _ (by
    simp [Request.ColorsInTable])

/-- **A byte with the top bit set**, printed in the last of two rows of two cells
and scrolled up by the next newline: its glyph is looked up almost `2 ^ 32` bytes
behind the table, its cell has the colours 15, and the redraw looks them up. -/
theorem topBit_out_of_tables :
    let s := terminalPrint
      (terminalInit (Screen.boot (fun _ => 0) (fun _ => 0) 16) (fun _ => 0) 16 32)
      ⟨[10, 0xC3, 10], by decide⟩
    s.terminal.glyphAt 0 0 = ⟨0xC3, 15, 15⟩ ∧ 2 ^ 32 - 1488 ∈ s.glyphReads ∧ 15 ∈ s.lookups ∧
      ¬ InRange s := by
  intro s
  have hlookups : 15 ∈ s.lookups := by decide +kernel
  refine ⟨by decide +kernel, by decide +kernel, hlookups, fun h => ?_⟩
  exact absurd (h.colors 15 hlookups) (by decide)

end OsdevX64.Console
