import OsdevX64.Console.Pixels

/-!
# Painting is exact

A word of the framebuffer belongs to a rectangle if it is the pixel in one of its
columns and one of its rows (`InRect`).  `graphics_rect` and `graphics_char` walk a
pointer; what the pointer meets is the rectangle, so **inside they set what they are
asked for and every other word stays as it is** (`painting_exact`), the words between
the width and the pitch and those behind the frame included.
-/

namespace OsdevX64.Console

open ByteMemory MachineInt CLib

/-- The word `k` is a pixel of the rectangle. -/
def InRect (pitch x y w h k : ℕ) : Prop :=
  ∃ i j, (x ≤ i ∧ i < x + w) ∧ (y ≤ j ∧ j < y + h) ∧ k = j * pitch + i

/-- What the pointer meets when it is advanced row by row lies in the rectangle. -/
theorem inRect_of_offset {pitch x y w h r i : ℕ} (hr : r < h) (hi : i < w) :
    InRect pitch x y w h (y * pitch + x + r * pitch + i) := by
  refine ⟨x + i, y + r, ⟨Nat.le_add_right x i, by omega⟩, ⟨Nat.le_add_right y r, by omega⟩, ?_⟩
  rw [Nat.add_mul]
  omega

/-! ## What is not met is not changed -/

section Missed

variable {pitch fb w rows k : ℕ} (hk : ∀ r < rows + 1, ∀ i < w, k ≠ fb + r * pitch + i)
include hk

/-- A word that no row meets is not in the first one. -/
theorem first_missed : ¬ (fb ≤ k ∧ k < fb + w) := by
  rintro ⟨hlow, hhigh⟩
  have hmet := hk 0 (Nat.succ_pos rows) (k - fb) (by omega)
  omega

/-- A word that no row meets is met by none of the rows behind the first one. -/
theorem rest_missed : ∀ r < rows, ∀ i < w, k ≠ fb + pitch + r * pitch + i := by
  intro r hr i hi
  have hnext := hk (r + 1) (Nat.succ_lt_succ hr) i hi
  rw [Nat.succ_mul] at hnext
  omega

end Missed

theorem rectRows_frame (pixels : Tracked ℕ (BitVec 32)) {pitch fb w rows k : ℕ}
    (color : BitVec 32) (hk : ∀ r < rows, ∀ i < w, k ≠ fb + r * pitch + i) :
    (rectRows pixels pitch fb w color rows).cell k = pixels.cell k := by
  induction rows generalizing pixels fb with
  | zero => rfl
  | succ rows ih =>
      rw [rectRows, ih _ (rest_missed hk), memset32_cell, if_neg (first_missed hk)]

theorem charRows_frame (g : Graphics) (fb charBitmap : ℕ) {rows k : ℕ} (fg bg : BitVec 32)
    (hk : ∀ r < rows, ∀ i < 8, k ≠ fb + r * g.pitch + i) :
    (charRows g fb charBitmap fg bg rows).pixels.cell k = g.pixels.cell k := by
  induction rows generalizing g fb charBitmap with
  | zero => rfl
  | succ rows ih =>
      rw [charRows]
      dsimp only
      rw [ih]
      · rw [charRow_cell, if_neg (first_missed hk)]
      · exact rest_missed hk

/-- A word outside a rectangle of the frame is not changed. -/
theorem graphicsRect_frame {g : Graphics} {x y w h k : ℕ} (hx : x < 2 ^ 16) (hy : y + h < 2 ^ 16)
    (color : BitVec 32) (hk : ¬ InRect g.pitch x y w h k) :
    (graphicsRect g x y w h color).pixels.cell k = g.pixels.cell k := by
  have hrows : u32 (y + h) - y = h := by
    rw [u32_of_lt (by omega), Nat.add_sub_cancel_left]
  refine rectRows_frame g.pixels color fun r hr i hi hmet => hk ?_
  rw [hrows] at hr
  rw [hmet, offset_eq g.pitch_lt hx (by omega)]
  exact inRect_of_offset hr hi

/-- A word outside the rectangle of a character is not changed. -/
theorem graphicsChar_frame {g : Graphics} {x y k : ℕ} (hx : x < 2 ^ 16) (hy : y < 2 ^ 16) (c : ℕ)
    (fg bg : BitVec 32) (hk : ¬ InRect g.pitch x y 8 16 k) :
    (graphicsChar g x y c fg bg).pixels.cell k = g.pixels.cell k := by
  refine charRows_frame g _ _ fg bg fun r hr i hi hmet => hk ?_
  rw [hmet, offset_eq g.pitch_lt hx hy]
  exact inRect_of_offset hr hi

/-- Drawing a character does not change the glyph table. -/
theorem graphicsChar_fontCell (g : Graphics) (x y c : ℕ) (fg bg : BitVec 32) :
    (graphicsChar g x y c fg bg).font.cell = g.font.cell := by
  unfold graphicsChar
  rw [charRows_font]

/-! ## Glyphs -/

/-- Row `j` of the glyph of a character. -/
def glyphRow (font : Memory ℕ) (c j : ℕ) : Byte := font ((c - 32) * 16 + j)

theorem glyphRow_inTable {c j : ℕ} (hc132 : c ≤ 132) (hj : j < 16) :
    (c - 32) * 16 + j < terminus16.length := by
  have hlength : terminus16.length = 1616 := by decide +kernel
  rw [hlength]
  omega

/-- The leftmost column has the top bit. -/
theorem glyphBit_eq (font : Memory ℕ) {c : ℕ} (hc : 32 ≤ c) (hc132 : c ≤ 132) (j i : ℕ) :
    glyphBit font c j i = (glyphRow font c j).getLsbD (7 - i) := by
  have hindex : u32 (sub32 c 32 * 16) = (c - 32) * 16 := by
    rw [sub32_of_le hc, u32_of_lt (by omega)]
  unfold glyphBit columnBit glyphRow
  rw [hindex, BitVec.getLsbD, Nat.testBit, Nat.land_comm]
  by_cases hbit : 1 &&& (font ((c - 32) * 16 + j)).toNat >>> (7 - i) = 0
  · rw [decide_eq_false (not_not_intro hbit), hbit, bne_self_eq_false]
  · rw [decide_eq_true hbit, bne_iff_ne.mpr hbit]

/-! ## Both together -/

/-- The pixels of a rectangle inside the frame. -/
theorem graphicsRect_inside {g : Graphics} {x y w h i j : ℕ} (hw : x + w ≤ g.pitch)
    (hy : y + h < 2 ^ 16) (color : BitVec 32) (hi : x ≤ i ∧ i < x + w) (hj : y ≤ j ∧ j < y + h) :
    (graphicsRect g x y w h color).pixels.cell (j * g.pitch + i) = color := by
  have hpixel := pixel_graphicsRect hw hy color j (hi.2.trans_le hw)
  rw [if_pos ⟨hj, hi⟩] at hpixel
  exact hpixel

/-- The pixels of a character inside the frame. -/
theorem graphicsChar_inside {g : Graphics} {x y c i j : ℕ} (hw : x + 8 ≤ g.pitch)
    (hy : y < 2 ^ 16) (hc : 32 ≤ c) (hc132 : c ≤ 132) (fg bg : BitVec 32) (hi : i < 8)
    (hj : j < 16) :
    (graphicsChar g x y c fg bg).pixels.cell ((y + j) * g.pitch + (x + i)) =
      if (glyphRow g.font.cell c j).getLsbD (7 - i) then fg else bg := by
  have hcolumn : x + i < g.pitch := by omega
  have hpixel := pixel_graphicsChar hw hy c fg bg (y + j) hcolumn
  have hin : (y ≤ y + j ∧ y + j < y + 16) ∧ x ≤ x + i ∧ x + i < x + 8 := by omega
  rw [if_pos hin, Nat.add_sub_cancel_left, Nat.add_sub_cancel_left,
    glyphBit_eq g.font.cell hc hc132, Graphics.pixel, graphicsChar_pitch] at hpixel
  exact hpixel

/-- **Painting is exact.**  A rectangle inside the frame sets its pixels to the colour, a
character inside the frame sets its pixels by the bits of its glyph, whose rows are in
the table, and both leave every other word of the framebuffer and the table as they
are. -/
theorem painting_exact (g : Graphics) (width height : ℕ) (hwidth : width ≤ g.pitch)
    (hheight : height < 2 ^ 16) :
    (∀ x y w h color, x + w ≤ width → y + h ≤ height →
      let g' := graphicsRect g x y w h color
      (∀ i j, x ≤ i → i < x + w → y ≤ j → j < y + h →
        g'.pixels.cell (j * g.pitch + i) = color) ∧
      (∀ k, ¬ InRect g.pitch x y w h k → g'.pixels.cell k = g.pixels.cell k) ∧
      g'.pitch = g.pitch ∧ g'.font.cell = g.font.cell) ∧
    ∀ x y c fg bg, 32 ≤ c → c ≤ 132 → x + 8 ≤ width → y + 16 ≤ height →
      let g' := graphicsChar g x y c fg bg
      (∀ i < 8, ∀ j < 16, (c - 32) * 16 + j < terminus16.length ∧
        g'.pixels.cell ((y + j) * g.pitch + (x + i)) =
          if (glyphRow g.font.cell c j).getLsbD (7 - i) then fg else bg) ∧
      (∀ k, ¬ InRect g.pitch x y 8 16 k → g'.pixels.cell k = g.pixels.cell k) ∧
      g'.pitch = g.pitch ∧ g'.font.cell = g.font.cell := by
  have hpitch := g.pitch_lt
  refine ⟨?_, ?_⟩
  · intro x y w h color hw hh
    have hy : y + h < 2 ^ 16 := by omega
    refine ⟨?_, ?_, graphicsRect_pitch g x y w h color, rfl⟩
    · intro i j hxi hiw hyj hjh
      exact graphicsRect_inside (hw.trans hwidth) hy color ⟨hxi, hiw⟩ ⟨hyj, hjh⟩
    · intro k hk
      exact graphicsRect_frame (by omega) hy color hk
  · intro x y c fg bg hc hc132 hx hh
    have hy : y < 2 ^ 16 := by omega
    refine ⟨?_, ?_, graphicsChar_pitch g x y c fg bg, graphicsChar_fontCell g x y c fg bg⟩
    · intro i hi j hj
      exact ⟨glyphRow_inTable hc132 hj,
        graphicsChar_inside (hx.trans hwidth) hy hc hc132 fg bg hi hj⟩
    · intro k hk
      exact graphicsChar_frame (by omega) hy c fg bg hk

/-- Three pixels of the third row in a frame whose rows are two words longer than it is
wide. -/
theorem painting_exact_row :
    let g : Graphics := ⟨Tracked.fresh fun _ => 0, 10, by decide, Tracked.fresh fun _ => 0⟩
    let g' := graphicsRect g 1 2 3 1 7
    g'.pixels.cell (2 * 10 + 2) = 7 ∧ g'.pixels.cell 24 = 0 := by
  intro g g'
  obtain ⟨hin, hout, -, -⟩ := (painting_exact g 8 4 (by decide) (by decide)).1 1 2 3 1 7
    (by decide) (by decide)
  refine ⟨hin 2 2 (by decide) (by decide) (by decide) (by decide), hout 24 ?_⟩
  rintro ⟨i, j, hi, hj, hword⟩
  have hpitch : g.pitch = 10 := rfl
  rw [hpitch] at hword
  omega

end OsdevX64.Console
