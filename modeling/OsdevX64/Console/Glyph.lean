import OsdevX64.Console.Bounds

/-!
# The cells of the terminal as glyphs

A 16-bit cell packs a character and two colours.  `Terminal.glyphAt` unpacks the
cell at a row and a column the way the redraw loop does; this module says how
every operation of the terminal changes it.

The load-bearing fact is that **packing and unpacking are inverse**
(`Glyph.entry_ofEntry`, `Glyph.ofEntry_entry`): the redraw loop unpacks every
cell and packs it again, so it must leave the text as it is (`redraw_sameText`).
-/

namespace OsdevX64.Console

open ByteMemory MachineInt CLib

/-- A character with its colours. -/
@[ext]
structure Glyph where
  c : ℕ
  fg : ℕ
  bg : ℕ
  deriving DecidableEq, Repr

/-- The cell that `terminal_put` stores. -/
def Glyph.entry (g : Glyph) : ℕ := u16 (vgaEntry g.c (vgaColor g.fg g.bg))

/-- What the redraw loop reads from a cell. -/
def Glyph.ofEntry (v : ℕ) : Glyph := ⟨v &&& 0xFF, (v >>> 8) &&& 0x0F, v >>> 12⟩

/-- The glyph in column `j` of row `i` of `terminal.Buffer`. -/
def Terminal.glyphAt (t : Terminal) (i j : ℕ) : Glyph :=
  Glyph.ofEntry (half t.buffer.cell (i * t.width + j))

/-! ## Packing -/

/-- A glyph whose fields fit their bits. -/
structure Glyph.Fits (g : Glyph) : Prop where
  c : g.c < 2 ^ 8
  fg : g.fg < 2 ^ 4
  bg : g.bg < 2 ^ 4

/-- The packing, as arithmetic. -/
theorem Glyph.entry_eq {g : Glyph} (h : g.Fits) : g.entry = g.c + 256 * (g.fg + 16 * g.bg) := by
  have hc := h.c
  have hfg := h.fg
  have hbg := h.bg
  have hcolor : vgaColor g.fg g.bg = g.fg + 16 * g.bg := by
    rw [vgaColor, u32_of_lt (by rw [Nat.shiftLeft_eq]; omega), lor_shiftLeft_of_lt hfg]
    rfl
  rw [Glyph.entry, hcolor, vgaEntry, u32_of_lt (by rw [Nat.shiftLeft_eq]; omega),
    lor_shiftLeft_of_lt hc]
  exact u16_of_lt (by omega)

/-- The unpacking, as arithmetic. -/
theorem Glyph.ofEntry_eq (v : ℕ) :
    Glyph.ofEntry v = ⟨v % 256, v / 256 % 16, v / 4096⟩ := by
  unfold Glyph.ofEntry
  ext
  · exact Nat.and_two_pow_sub_one_eq_mod v 8
  · rw [Nat.shiftRight_eq_div_pow]
    exact Nat.and_two_pow_sub_one_eq_mod (v / 2 ^ 8) 4
  · exact Nat.shiftRight_eq_div_pow v 12

theorem Glyph.ofEntry_fits {v : ℕ} (h : v < 2 ^ 16) : (Glyph.ofEntry v).Fits := by
  rw [Glyph.ofEntry_eq]
  constructor <;> dsimp only <;> omega

/-- **Unpacking undoes packing.** -/
theorem Glyph.ofEntry_entry {g : Glyph} (h : g.Fits) : Glyph.ofEntry g.entry = g := by
  have hc := h.c
  have hfg := h.fg
  rw [Glyph.entry_eq h, Glyph.ofEntry_eq]
  ext <;> dsimp only <;> omega

/-- **Packing undoes unpacking**, on the 16 bits of a cell. -/
theorem Glyph.entry_ofEntry {v : ℕ} (h : v < 2 ^ 16) : (Glyph.ofEntry v).entry = v := by
  rw [Glyph.entry_eq (Glyph.ofEntry_fits h), Glyph.ofEntry_eq]
  dsimp only
  omega

theorem Glyph.entry_lt (g : Glyph) : g.entry < 2 ^ 16 := Nat.mod_lt _ (by omega)

/-! ## Putting a glyph -/

@[simp] theorem glyphAt_moveTo (s : Screen) (x y i j : ℕ) :
    (s.moveTo x y).terminal.glyphAt i j = s.terminal.glyphAt i j := rfl

/-- Cells at different places have different indices. -/
theorem cell_index_inj {width i j y x : ℕ} (hj : j < width) (hx : x < width)
    (h : i * width + j = y * width + x) : i = y ∧ j = x := by
  have hrow : i = y := by
    have := congrArg (· / width) h
    simpa [Nat.mul_comm _ width, Nat.mul_add_div (Nat.zero_lt_of_lt hj), Nat.div_eq_of_lt hj,
      Nat.div_eq_of_lt hx] using this
  subst hrow
  exact ⟨rfl, Nat.add_left_cancel h⟩

/-- **A put changes the glyph it is given** and no other. -/
theorem glyphAt_terminalPut {s : Screen} (hsize : s.terminal.width * s.terminal.height < 2 ^ 32)
    {x y : ℕ} (hx : x < s.terminal.width) (hy : y < s.terminal.height) {c fg bg : ℕ}
    (hfits : (Glyph.mk c fg bg).Fits) {i j : ℕ} (hj : j < s.terminal.width) :
    (terminalPut s c fg bg x y).terminal.glyphAt i j =
      if i = y ∧ j = x then ⟨c, fg, bg⟩ else s.terminal.glyphAt i j := by
  unfold Terminal.glyphAt
  rw [terminalPut_terminal]
  dsimp only
  rw [Tracked.cell_storeBytes, half_storeLE, Terminal.index_eq hsize hx hy]
  by_cases hij : i = y ∧ j = x
  · obtain ⟨rfl, rfl⟩ := hij
    have hentry := Glyph.entry_lt ⟨c, fg, bg⟩
    rw [if_pos rfl, if_pos ⟨rfl, rfl⟩, ← Glyph.ofEntry_entry hfits]
    exact congrArg _ (Nat.mod_eq_of_lt hentry)
  · rw [if_neg hij, if_neg fun h => hij (cell_index_inj hj hx h)]

/-! ## The redraw -/

/-- Two terminals with the same sizes and colours. -/
structure SameFrame (t t' : Terminal) : Prop where
  fg : t'.fg = t.fg
  bg : t'.bg = t.bg
  width : t'.width = t.width
  height : t'.height = t.height
  size : t'.size = t.size

theorem SameFrame.trans {t t' t'' : Terminal} (h : SameFrame t t') (h' : SameFrame t' t'') :
    SameFrame t t'' where
  fg := h'.fg.trans h.fg
  bg := h'.bg.trans h.bg
  width := h'.width.trans h.width
  height := h'.height.trans h.height
  size := h'.size.trans h.size

theorem moveTo_frame (s : Screen) (x y : ℕ) : SameFrame s.terminal (s.moveTo x y).terminal :=
  ⟨rfl, rfl, rfl, rfl, rfl⟩

theorem setBuffer_frame (s : Screen) (buffer : Tracked ℕ Byte) :
    SameFrame s.terminal (s.setBuffer buffer).terminal := ⟨rfl, rfl, rfl, rfl, rfl⟩

/-- Two terminals that show the same text, with the cursor at the same place. -/
structure SameText (t t' : Terminal) : Prop where
  frame : SameFrame t t'
  x : t'.x = t.x
  y : t'.y = t.y
  cells : ∀ k, half t'.buffer.cell k = half t.buffer.cell k

theorem SameText.refl (t : Terminal) : SameText t t :=
  ⟨⟨rfl, rfl, rfl, rfl, rfl⟩, rfl, rfl, fun _ => rfl⟩

theorem SameText.trans {t t' t'' : Terminal} (h : SameText t t') (h' : SameText t' t'') :
    SameText t t'' where
  frame := h.frame.trans h'.frame
  x := h'.x.trans h.x
  y := h'.y.trans h.y
  cells k := (h'.cells k).trans (h.cells k)

/-- The same text shows the same glyphs. -/
theorem SameText.glyphAt {t t' : Terminal} (h : SameText t t') (i j : ℕ) :
    t'.glyphAt i j = t.glyphAt i j := by
  unfold Terminal.glyphAt
  rw [h.frame.width, h.cells]

/-- A cell is packed as it was unpacked. -/
theorem redrawCell_sameText (s : Screen) (x y : ℕ) :
    SameText s.terminal (redrawCell s x y).terminal := by
  refine ⟨⟨rfl, rfl, rfl, rfl, rfl⟩, rfl, rfl, fun k => ?_⟩
  have hcell : (redrawCell s x y).terminal.buffer.cell =
      storeLE s.terminal.buffer.cell (2 * s.terminal.index x y) 2
        (Glyph.ofEntry (half s.terminal.buffer.cell (s.terminal.index x y))).entry := rfl
  rw [hcell, Glyph.entry_ofEntry (half_lt _ _), half_storeLE]
  split_ifs with hk
  · rw [hk]
    exact Nat.mod_eq_of_lt (half_lt _ _)
  · rfl

/-- **The redraw keeps the text.** -/
theorem redraw_sameText (s : Screen) : SameText s.terminal (redraw s).terminal := by
  unfold redraw
  refine List.foldlRecOn (motive := fun r : Screen => SameText s.terminal r.terminal) _ _
    (SameText.refl _) ?_
  intro r hr y _
  refine List.foldlRecOn (motive := fun r : Screen => SameText s.terminal r.terminal) _ _ hr ?_
  intro q hq x _
  exact hq.trans (redrawCell_sameText q x y)

/-! ## The scroll -/

/-- The scroll leaves the cursor in its column of the last row. -/
theorem scroll_frame (s : Screen) :
    SameFrame s.terminal (scroll s).terminal ∧ (scroll s).terminal.x = s.terminal.x ∧
      (scroll s).terminal.y = sub32 s.terminal.height 1 := by
  unfold scroll
  dsimp only
  generalize scrollBuffer s.terminal = buffer
  obtain ⟨hframe, hx, -, -⟩ := redraw_sameText (s.setBuffer buffer)
  generalize redraw (s.setBuffer buffer) = q at hframe hx
  refine ⟨(setBuffer_frame s buffer).trans (hframe.trans (moveTo_frame q _ _)), ?_, ?_⟩
  · rw [moveTo_x, hx, setBuffer_x]
  · rw [moveTo_y, hframe.height, setBuffer_height]

/-- The scroll moves every cell up by one row and blanks the last row in the current
colours. -/
theorem half_scrollBuffer {t : Terminal} (hrow : t.width ≤ t.size) {k : ℕ} (hk : k < t.size) :
    half (scrollBuffer t).cell k =
      if k + t.width < t.size then half t.buffer.cell (k + t.width)
      else (Glyph.mk 32 t.fg t.bg).entry := by
  unfold scrollBuffer
  dsimp only
  rw [sub32_of_le hrow, memset16_half]
  by_cases hmoved : k + t.width < t.size
  · rw [if_neg (by omega), if_pos hmoved]
    refine half_congr fun b hb => ?_
    rw [memmove_cell, if_pos (by omega)]
    congr 1
    omega
  · rw [if_pos (by omega), if_neg hmoved]
    exact Nat.mod_eq_of_lt (Glyph.entry_lt ⟨32, t.fg, t.bg⟩)

/-- The scroll moves the glyphs of every row to the row above; the last row gets
spaces in the current colours. -/
theorem glyphAt_scroll {s : Screen} (hsize : s.terminal.size = s.terminal.width * s.terminal.height)
    (hfits : (Glyph.mk 32 s.terminal.fg s.terminal.bg).Fits) {i j : ℕ}
    (hi : i < s.terminal.height) (hj : j < s.terminal.width) :
    (scroll s).terminal.glyphAt i j =
      if i + 1 < s.terminal.height then s.terminal.glyphAt (i + 1) j
      else ⟨32, s.terminal.fg, s.terminal.bg⟩ := by
  have hsame := redraw_sameText (s.setBuffer (scrollBuffer s.terminal))
  have hcell := cell_lt hj hi
  rw [← hsize] at hcell
  have hrow : s.terminal.width ≤ s.terminal.size := by
    rw [hsize]
    exact Nat.le_mul_of_pos_right _ (Nat.zero_lt_of_lt hi)
  have hnext : i * s.terminal.width + j + s.terminal.width = (i + 1) * s.terminal.width + j := by
    rw [Nat.succ_mul]
    omega
  unfold scroll
  dsimp only
  rw [glyphAt_moveTo, hsame.glyphAt]
  unfold Terminal.glyphAt
  rw [setBuffer_width, setBuffer_buffer, half_scrollBuffer hrow hcell, hnext]
  by_cases hbelow : i + 1 < s.terminal.height
  · have hin := cell_lt hj hbelow
    rw [← hsize] at hin
    rw [if_pos hin, if_pos hbelow]
  · have hmul := Nat.mul_le_mul_left s.terminal.width (Nat.not_lt.mp hbelow)
    rw [← hsize, Nat.mul_comm] at hmul
    rw [if_neg (by omega), if_neg hbelow, Glyph.ofEntry_entry hfits]

/-! ## One character -/

/-- The screen with the cursor taken off and the character sent to the serial port. -/
def erased (s : Screen) (c : ℕ) : Screen := serialTx (terminalCursor s s.terminal.bg) c

@[simp] theorem erased_terminal (s : Screen) (c : ℕ) : (erased s c).terminal = s.terminal := by
  rw [erased, serialTx_terminal, terminalCursor_terminal]

theorem erased_frame (s : Screen) (c : ℕ) : SameFrame s.terminal (erased s c).terminal := by
  rw [erased_terminal]
  exact (SameText.refl _).frame

/-- What a character does before the scroll. -/
def typed (s : Screen) (c : ℕ) : Screen :=
  if c = 8 then backspace s else if c = 10 then newline s else putAdvance s c

theorem typed_frame (s : Screen) (c : ℕ) : SameFrame s.terminal (typed s c).terminal := by
  unfold typed
  rw [putAdvance_eq]
  split_ifs <;> exact ⟨rfl, rfl, rfl, rfl, rfl⟩

/-- A character is typed, then the screen is scrolled if it has to be, and the
cursor is drawn. -/
theorem terminalChar_eq (s : Screen) (c : ℕ) :
    terminalChar s c =
      let q := typed (erased s c) c
      let q := if q.terminal.y ≥ q.terminal.height then scroll q else q
      terminalCursor q q.terminal.fg := rfl

theorem terminalChar_frame (s : Screen) (c : ℕ) :
    SameFrame s.terminal (terminalChar s c).terminal := by
  rw [terminalChar_eq]
  dsimp only
  have htyped := (erased_frame s c).trans (typed_frame (erased s c) c)
  rw [terminalCursor_terminal]
  split_ifs
  · exact htyped.trans (scroll_frame _).1
  · exact htyped

/-! ## A fresh terminal -/

/-- `terminal_init` fills the buffer with spaces, white on black. -/
theorem glyphAt_terminalInit (s : Screen) (heap : Memory ℕ) {w h : ℕ}
    (hsize : w / 8 * (h / 16) < 2 ^ 32) {i j : ℕ} (hi : i < h / 16) (hj : j < w / 8) :
    (terminalInit s heap w h).terminal.glyphAt i j = ⟨32, terminalWhite, terminalBlack⟩ := by
  have hcell := cell_lt hj hi
  have hhalf := memset16_half (Tracked.fresh heap) 0
    (Glyph.mk 32 terminalWhite terminalBlack).entry (u32 (w / 8 * (h / 16))) (i * (w / 8) + j)
  rw [u32_of_lt hsize, if_pos (by omega)] at hhalf
  unfold Terminal.glyphAt terminalInit
  dsimp only
  rw [u32_of_lt hsize]
  exact (congrArg Glyph.ofEntry hhalf).trans (by decide)

end OsdevX64.Console
