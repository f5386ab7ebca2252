import OsdevX64.Console.Glyph
import OsdevX64.Console.Terminus16

/-!
# What drawing paints

`graphics_rect` and `graphics_char` walk the framebuffer with a pointer.  Here
they are read as what they do to the pixel in a column of a row, for a
framebuffer whose rows do not overlap: a rectangle has its colour inside and is
nothing outside (`pixel_graphicsRect`), a glyph its bits
(`pixel_graphicsChar`).

For the terminal the screen is cut into blocks of 16 rows and 8 columns, one for
each cell.  `block_terminalPut` and `block_terminalCursor` say which pixels of
which block change.
-/

namespace OsdevX64.Console

open ByteMemory MachineInt CLib

/-- The pixel in a column of a row. -/
def Graphics.pixel (g : Graphics) (row column : ℕ) : BitVec 32 :=
  g.pixels.cell (row * g.pitch + column)

/-- `graphics_clear`, with the width and the height of the frame. -/
def graphicsClear (g : Graphics) (w h : ℕ) (color : BitVec 32) : Graphics :=
  graphicsRect g 0 0 w h color

/-! ## Rows of the framebuffer -/

/-- A stretch of one row. -/
theorem inStretch_iff {pitch x w y row column : ℕ} (hw : x + w ≤ pitch) (hcolumn : column < pitch) :
    y * pitch + x ≤ row * pitch + column ∧ row * pitch + column < y * pitch + x + w ↔
      row = y ∧ x ≤ column ∧ column < x + w := by
  rcases lt_trichotomy row y with hlt | rfl | hgt
  · have hmul := Nat.mul_le_mul_right pitch hlt
    rw [Nat.succ_mul] at hmul
    omega
  · omega
  · have hmul := Nat.mul_le_mul_right pitch hgt
    rw [Nat.succ_mul] at hmul
    omega

theorem rectRows_cell {pitch x w row column : ℕ} (hw : x + w ≤ pitch) (hcolumn : column < pitch)
    (pixels : Tracked ℕ (BitVec 32)) (y : ℕ) (color : BitVec 32) (rows : ℕ) :
    (rectRows pixels pitch (y * pitch + x) w color rows).cell (row * pitch + column) =
      if (y ≤ row ∧ row < y + rows) ∧ x ≤ column ∧ column < x + w then color
      else pixels.cell (row * pitch + column) := by
  induction rows generalizing pixels y with
  | zero => rw [rectRows, if_neg (by omega)]
  | succ rows ih =>
      have hnext : y * pitch + x + pitch = (y + 1) * pitch + x := by
        rw [Nat.succ_mul]
        omega
      rw [rectRows, hnext, ih, memset32_cell]
      simp only [inStretch_iff hw hcolumn]
      by_cases hcol : x ≤ column ∧ column < x + w
      · simp only [hcol, and_true]
        split_ifs <;> first
          | rfl
          | omega
      · simp only [hcol, and_false, if_false]

/-- **A rectangle has its colour inside** and changes nothing outside. -/
theorem pixel_graphicsRect {g : Graphics} {x y w h : ℕ} (hw : x + w ≤ g.pitch)
    (hy : y + h < 2 ^ 16) (color : BitVec 32) (row : ℕ) {column : ℕ} (hcolumn : column < g.pitch) :
    (graphicsRect g x y w h color).pixel row column =
      if (y ≤ row ∧ row < y + h) ∧ x ≤ column ∧ column < x + w then color
      else g.pixel row column := by
  have hpitch := g.pitch_lt
  have hrows : u32 (y + h) - y = h := by
    rw [u32_of_lt (by omega), Nat.add_sub_cancel_left]
  unfold Graphics.pixel graphicsRect
  dsimp only
  rw [offset_eq hpitch (by omega) (by omega), hrows]
  exact rectRows_cell hw hcolumn g.pixels y color h

/-! ## Glyphs -/

/-- The bit of a row of a glyph that belongs to a column. -/
def columnBit (byte : Byte) (column : ℕ) : Bool := byte.toNat >>> (7 - column) &&& 1 ≠ 0

/-- The bit of a glyph in a column of a row. -/
def glyphBit (font : Memory ℕ) (c row column : ℕ) : Bool :=
  columnBit (font (u32 (sub32 c 32 * 16) + row)) column

/-- What a glyph looks like in a column of a row. -/
def Glyph.pixel (font : Memory ℕ) (g : Glyph) (row column : ℕ) : BitVec 32 :=
  if glyphBit font g.c row column then gfxColors.getD g.fg 0 else gfxColors.getD g.bg 0

/-- The loop takes the bits from the right: the last of `xc` columns gets the lowest. -/
theorem charRow_cell (pixels : Tracked ℕ (BitVec 32)) (fb : ℕ) (fg bg : BitVec 32)
    (xc byte k : ℕ) :
    (charRow pixels fb fg bg xc byte).cell k =
      if fb ≤ k ∧ k < fb + xc then
        if byte >>> (xc - 1 - (k - fb)) &&& 1 ≠ 0 then fg else bg
      else pixels.cell k := by
  induction xc generalizing pixels byte with
  | zero => rw [charRow, if_neg (by omega)]
  | succ xc ih =>
      rw [charRow, ih, Tracked.cell_write]
      rcases lt_trichotomy k (fb + xc) with hlt | rfl | hgt
      · rw [Function.update_of_ne hlt.ne, ← Nat.shiftRight_add]
        by_cases hfb : fb ≤ k
        · have hin : fb ≤ k ∧ k < fb + xc := ⟨hfb, hlt⟩
          have hin' : fb ≤ k ∧ k < fb + (xc + 1) := ⟨hfb, by omega⟩
          have hshift : 1 + (xc - 1 - (k - fb)) = xc + 1 - 1 - (k - fb) := by omega
          rw [if_pos hin, if_pos hin', hshift]
        · rw [if_neg (fun h => hfb h.1), if_neg (fun h => hfb h.1)]
      · have hout : ¬ (fb ≤ fb + xc ∧ fb + xc < fb + xc) := by omega
        have hin' : fb ≤ fb + xc ∧ fb + xc < fb + (xc + 1) := by omega
        have hshift : xc + 1 - 1 - (fb + xc - fb) = 0 := by omega
        rw [if_neg hout, if_pos hin', Function.update_self, hshift, Nat.shiftRight_zero]
      · have hout : ¬ (fb ≤ k ∧ k < fb + xc) := by omega
        have hout' : ¬ (fb ≤ k ∧ k < fb + (xc + 1)) := by omega
        rw [if_neg hout, if_neg hout', Function.update_of_ne hgt.ne']

theorem charRow_pixel {pitch x row column : ℕ} (hw : x + 8 ≤ pitch) (hcolumn : column < pitch)
    (pixels : Tracked ℕ (BitVec 32)) (y : ℕ) (fg bg : BitVec 32) (byte : Byte) :
    (charRow pixels (y * pitch + x) fg bg 8 byte.toNat).cell (row * pitch + column) =
      if row = y ∧ x ≤ column ∧ column < x + 8 then
        if columnBit byte (column - x) then fg else bg
      else pixels.cell (row * pitch + column) := by
  rw [charRow_cell]
  simp only [inStretch_iff hw hcolumn]
  by_cases hin : row = y ∧ x ≤ column ∧ column < x + 8
  · rw [if_pos hin, if_pos hin]
    obtain ⟨rfl, hx, hlt⟩ := hin
    have hshift : 8 - 1 - (row * pitch + column - (row * pitch + x)) = 7 - (column - x) := by omega
    rw [hshift]
    simp only [columnBit, decide_eq_true_eq]
  · rw [if_neg hin, if_neg hin]

theorem charRows_pixel {g : Graphics} {x row column : ℕ} (hw : x + 8 ≤ g.pitch)
    (hcolumn : column < g.pitch) (y charBitmap : ℕ) (fg bg : BitVec 32) (rows : ℕ) :
    (charRows g (y * g.pitch + x) charBitmap fg bg rows).pixel row column =
      if (y ≤ row ∧ row < y + rows) ∧ x ≤ column ∧ column < x + 8 then
        if columnBit (g.font.cell (charBitmap + (row - y))) (column - x) then fg else bg
      else g.pixel row column := by
  induction rows generalizing g y charBitmap with
  | zero => rw [charRows, if_neg (by omega)]
  | succ rows ih =>
      have hnext : y * g.pitch + x + g.pitch = (y + 1) * g.pitch + x := by
        rw [Nat.succ_mul]
        omega
      rw [charRows]
      dsimp only
      rw [hnext]
      refine (ih (g := { g with
        font := (g.font.read charBitmap).2
        pixels := charRow g.pixels (y * g.pitch + x) fg bg 8 (g.font.read charBitmap).1.toNat })
        hw hcolumn (y + 1) (charBitmap + 1)).trans ?_
      unfold Graphics.pixel
      dsimp only
      rw [charRow_pixel hw hcolumn, Tracked.cell_read, Tracked.read_fst]
      by_cases hcol : x ≤ column ∧ column < x + 8
      · simp only [hcol, and_true]
        rcases lt_trichotomy row y with hlt | rfl | hgt
        · have hrest : ¬ (y + 1 ≤ row ∧ row < y + 1 + rows) := by omega
          have hall : ¬ (y ≤ row ∧ row < y + (rows + 1)) := by omega
          rw [if_neg hrest, if_neg hlt.ne, if_neg hall]
        · have hrest : ¬ (row + 1 ≤ row ∧ row < row + 1 + rows) := by omega
          have hall : row ≤ row ∧ row < row + (rows + 1) := by omega
          rw [if_neg hrest, if_pos rfl, if_pos hall, Nat.sub_self, Nat.add_zero]
        · have hbyte : charBitmap + 1 + (row - (y + 1)) = charBitmap + (row - y) := by omega
          have hrest : y + 1 ≤ row ∧ row < y + 1 + rows ↔ y ≤ row ∧ row < y + (rows + 1) := by
            omega
          rw [hbyte, if_neg hgt.ne']
          simp only [hrest]
      · simp only [hcol, and_false, if_false]

/-- **A glyph has its bits inside its block** and changes nothing outside. -/
theorem pixel_graphicsChar {g : Graphics} {x y : ℕ} (hw : x + 8 ≤ g.pitch) (hy : y < 2 ^ 16)
    (c : ℕ) (fg bg : BitVec 32) (row : ℕ) {column : ℕ} (hcolumn : column < g.pitch) :
    (graphicsChar g x y c fg bg).pixel row column =
      if (y ≤ row ∧ row < y + 16) ∧ x ≤ column ∧ column < x + 8 then
        if glyphBit g.font.cell c (row - y) (column - x) then fg else bg
      else g.pixel row column := by
  have hpitch := g.pitch_lt
  unfold graphicsChar
  dsimp only
  rw [offset_eq hpitch (by omega) hy]
  exact charRows_pixel hw hcolumn y _ fg bg 16

/-! ## The blocks of the terminal -/

/-- Column `k` of row `r` in the block of the cell in column `j` of row `i`. -/
def Screen.block (s : Screen) (i j r k : ℕ) : BitVec 32 :=
  s.graphics.pixel (16 * i + r) (8 * j + k)

/-- A framebuffer with room for the block of every cell. -/
structure Drawable (s : Screen) : Prop where
  columns : 8 * s.terminal.width ≤ s.graphics.pitch
  rows : 16 * s.terminal.height ≤ 65535

section Blocks

variable {s : Screen} {i j r k : ℕ}

theorem Drawable.cells_lt (hs : Drawable s) : s.terminal.width * s.terminal.height < 2 ^ 32 := by
  have hcolumns := hs.columns
  have hrows := hs.rows
  have hpitch := s.graphics.pitch_lt
  have hmul : s.terminal.width * s.terminal.height ≤ 2 ^ 13 * 2 ^ 12 :=
    Nat.mul_le_mul (by omega) (by omega)
  omega

/-- Only the sizes of the terminal and the pitch matter. -/
theorem Drawable.of_sameFrame (hs : Drawable s) {s' : Screen}
    (hframe : SameFrame s.terminal s'.terminal) (hpitch : s'.graphics.pitch = s.graphics.pitch) :
    Drawable s' where
  columns := by
    rw [hframe.width, hpitch]
    exact hs.columns
  rows := by
    rw [hframe.height]
    exact hs.rows

/-- **A put paints the block of its cell** and no other. -/
theorem block_terminalPut (hs : Drawable s) {x y : ℕ} (hx : x < s.terminal.width)
    (hy : y < s.terminal.height) (hj : j < s.terminal.width) (hr : r < 16) (hk : k < 8)
    (c fg bg : ℕ) :
    (terminalPut s c fg bg x y).block i j r k =
      if i = y ∧ j = x then (Glyph.mk c fg bg).pixel s.graphics.font.cell r k
      else s.block i j r k := by
  have hcolumns := hs.columns
  have hrows := hs.rows
  have hpitch := s.graphics.pitch_lt
  have hx8 : u32 (8 * x) = 8 * x := u32_of_lt (by omega)
  have hy16 : u32 (16 * y) = 16 * y := u32_of_lt (by omega)
  have hcolumn : 8 * j + k < s.graphics.pitch := by omega
  have hpaint := pixel_graphicsChar (x := 8 * x) (y := 16 * y) (by omega) (by omega) c
    (gfxColors.getD fg 0) (gfxColors.getD bg 0) (16 * i + r) hcolumn
  have hcell : ((16 * y ≤ 16 * i + r ∧ 16 * i + r < 16 * y + 16) ∧
      8 * x ≤ 8 * j + k ∧ 8 * j + k < 8 * x + 8) ↔ i = y ∧ j = x := by omega
  simp only [hcell] at hpaint
  unfold Screen.block
  show (graphicsChar s.graphics (u32 (8 * x)) (u32 (16 * y)) c _ _).pixel _ _ = _
  rw [hx8, hy16, hpaint]
  by_cases hij : i = y ∧ j = x
  · obtain ⟨rfl, rfl⟩ := hij
    rw [Nat.add_sub_cancel_left, Nat.add_sub_cancel_left]
    rfl
  · rw [if_neg hij, if_neg hij]

/-- **The cursor is a strip of two columns** in the block of its cell. -/
theorem block_terminalCursor (hs : Drawable s) (hx : s.terminal.x < s.terminal.width)
    (hy : s.terminal.y < s.terminal.height) (hj : j < s.terminal.width) (hr : r < 16) (hk : k < 8)
    (color : ℕ) :
    (terminalCursor s color).block i j r k =
      if (i = s.terminal.y ∧ j = s.terminal.x) ∧ k < 2 then gfxColors.getD color 0
      else s.block i j r k := by
  have hcolumns := hs.columns
  have hrows := hs.rows
  have hpitch := s.graphics.pitch_lt
  have hx8 : u32 (s.terminal.x * 8) = 8 * s.terminal.x := by
    rw [Nat.mul_comm]
    exact u32_of_lt (by omega)
  have hy16 : u32 (s.terminal.y * 16) = 16 * s.terminal.y := by
    rw [Nat.mul_comm]
    exact u32_of_lt (by omega)
  have hcolumn : 8 * j + k < s.graphics.pitch := by omega
  have hpaint := pixel_graphicsRect (x := 8 * s.terminal.x) (y := 16 * s.terminal.y) (w := 2)
    (h := 16) (by omega) (by omega) (gfxColors.getD color 0) (16 * i + r) hcolumn
  have hcell : ((16 * s.terminal.y ≤ 16 * i + r ∧ 16 * i + r < 16 * s.terminal.y + 16) ∧
      8 * s.terminal.x ≤ 8 * j + k ∧ 8 * j + k < 8 * s.terminal.x + 2) ↔
        (i = s.terminal.y ∧ j = s.terminal.x) ∧ k < 2 := by omega
  simp only [hcell] at hpaint
  unfold Screen.block terminalCursor
  dsimp only
  rw [if_neg hx.ne, if_neg hy.ne, hx8, hy16]
  exact hpaint

end Blocks

end OsdevX64.Console
