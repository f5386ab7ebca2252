import OsdevX64.CLib.MemoryOps

/-!
# Drawing into the framebuffer

`graphics_rect` and `graphics_char` of `graphics.c`.  The framebuffer is an
array of 32-bit words addressed by the offset from `graphics.Pixels`; both
functions walk it with a pointer that advances by the pitch, so rows and columns
are only implicit.  `InFrame` recovers them: an offset is in the frame when it
is `row * pitch + column` with the column and the row below given bounds.

The glyph table is a part of the state: nothing here depends on its contents.
-/

namespace OsdevX64.Console

open ByteMemory MachineInt CLib

/-- The `Graphics` state, with the glyph table `Terminus16`. -/
structure Graphics where
  /-- The words from `graphics.Pixels` on. -/
  pixels : Tracked ℕ (BitVec 32)
  /-- Words from one row to the next, a 16-bit field. -/
  pitch : ℕ
  pitch_lt : pitch < 2 ^ 16
  font : Tracked ℕ Byte

/-- The row loop of `graphics_rect`; `fb` is the offset of the current row. -/
def rectRows (pixels : Tracked ℕ (BitVec 32)) (pitch fb w : ℕ) (color : BitVec 32) :
    ℕ → Tracked ℕ (BitVec 32)
  | 0 => pixels
  | rows + 1 => rectRows (memset32 pixels fb color w) pitch (fb + pitch) w color rows

/-- `graphics_rect`. -/
def graphicsRect (g : Graphics) (x y w h : ℕ) (color : BitVec 32) : Graphics :=
  let offset := u32 (u32 (y * g.pitch) + x)
  let yEnd := u32 (y + h)
  { g with pixels := rectRows g.pixels g.pitch offset w color (yEnd - y) }

/-- The bit loop of `graphics_char`, for the columns `xc - 1` down to 0. -/
def charRow (pixels : Tracked ℕ (BitVec 32)) (fb : ℕ) (fg bg : BitVec 32) :
    ℕ → ℕ → Tracked ℕ (BitVec 32)
  | 0, _ => pixels
  | xc + 1, byte =>
      charRow (pixels.write (fb + xc) (if byte &&& 1 ≠ 0 then fg else bg)) fb fg bg xc
        (byte >>> 1)

/-- The row loop of `graphics_char`; `charBitmap` is the offset in the table. -/
def charRows (g : Graphics) (fb charBitmap : ℕ) (fg bg : BitVec 32) : ℕ → Graphics
  | 0 => g
  | rows + 1 =>
      let (byte, font) := g.font.read charBitmap
      charRows { g with font := font, pixels := charRow g.pixels fb fg bg 8 byte.toNat }
        (fb + g.pitch) (charBitmap + 1) fg bg rows

/-- `graphics_char`. -/
def graphicsChar (g : Graphics) (x y c : ℕ) (fg bg : BitVec 32) : Graphics :=
  let charBitmap := u32 (sub32 c 32 * 16)
  let offset := u32 (u32 (y * g.pitch) + x)
  charRows g offset charBitmap fg bg 16

/-! ## What drawing leaves alone -/

@[simp] theorem graphicsRect_pitch (g : Graphics) (x y w h : ℕ) (color : BitVec 32) :
    (graphicsRect g x y w h color).pitch = g.pitch := rfl

theorem charRows_font (g : Graphics) (fb charBitmap : ℕ) (fg bg : BitVec 32) (rows : ℕ) :
    (charRows g fb charBitmap fg bg rows).font.cell = g.font.cell := by
  induction rows generalizing g fb charBitmap with
  | zero => rfl
  | succ rows ih => exact ih _ _ _

theorem charRows_pitch (g : Graphics) (fb charBitmap : ℕ) (fg bg : BitVec 32) (rows : ℕ) :
    (charRows g fb charBitmap fg bg rows).pitch = g.pitch := by
  induction rows generalizing g fb charBitmap with
  | zero => rfl
  | succ rows ih => exact ih _ _ _

@[simp] theorem graphicsChar_pitch (g : Graphics) (x y c : ℕ) (fg bg : BitVec 32) :
    (graphicsChar g x y c fg bg).pitch = g.pitch := by
  unfold graphicsChar
  rw [charRows_pitch]

/-! ## Which pixels drawing touches -/

/-- The offset of a pixel with column below `w` and row below `h`. -/
def InFrame (pitch w h offset : ℕ) : Prop :=
  ∃ column row, column < w ∧ row < h ∧ offset = row * pitch + column

theorem rectRows_within {P : ℕ → Prop} {pixels : Tracked ℕ (BitVec 32)}
    (hp : pixels.Within P) {pitch fb w : ℕ} (color : BitVec 32) {rows : ℕ}
    (h : ∀ r < rows, ∀ i < w, P (fb + r * pitch + i)) :
    (rectRows pixels pitch fb w color rows).Within P := by
  induction rows generalizing pixels fb with
  | zero => exact hp
  | succ rows ih =>
      refine ih (memset32_within hp color fun i hi => ?_) fun r hr i hi => ?_
      · simpa using h 0 (by omega) i hi
      · have hnext := h (r + 1) (by omega) i hi
        rwa [show fb + (r + 1) * pitch + i = fb + pitch + r * pitch + i by ring] at hnext

theorem charRow_within {P : ℕ → Prop} {pixels : Tracked ℕ (BitVec 32)}
    (hp : pixels.Within P) {fb : ℕ} (fg bg : BitVec 32) {xc : ℕ} (byte : ℕ)
    (h : ∀ i < xc, P (fb + i)) : (charRow pixels fb fg bg xc byte).Within P := by
  induction xc generalizing pixels byte with
  | zero => exact hp
  | succ xc ih => exact ih (hp.write (h xc (by omega)) _) _ fun i hi => h i (by omega)

theorem charRows_within {P : ℕ → Prop} {g : Graphics} (hp : g.pixels.Within P)
    {fb charBitmap : ℕ} (fg bg : BitVec 32) {rows : ℕ}
    (h : ∀ r < rows, ∀ i < 8, P (fb + r * g.pitch + i)) :
    (charRows g fb charBitmap fg bg rows).pixels.Within P := by
  induction rows generalizing g fb charBitmap with
  | zero => exact hp
  | succ rows ih =>
      refine ih (charRow_within hp fg bg _ fun i hi => ?_) fun r hr i hi => ?_
      · simpa using h 0 (by omega) i hi
      · have hnext := h (r + 1) (by omega) i hi
        rwa [show fb + (r + 1) * g.pitch + i = fb + g.pitch + r * g.pitch + i by ring] at hnext

/-- The offset of a pixel does not wrap for 16-bit coordinates and pitch. -/
theorem offset_eq {pitch x y : ℕ} (hpitch : pitch < 2 ^ 16) (hx : x < 2 ^ 16)
    (hy : y < 2 ^ 16) : u32 (u32 (y * pitch) + x) = y * pitch + x := by
  have hmul : y * pitch ≤ (2 ^ 16 - 1) * (2 ^ 16 - 1) :=
    Nat.mul_le_mul (by omega) (by omega)
  rw [u32_of_lt (n := y * pitch) (by omega), u32_of_lt (by omega)]

/-- A rectangle inside the frame is painted inside the frame. -/
theorem graphicsRect_within {g : Graphics} {W H : ℕ}
    (hW : W < 2 ^ 16) (hH : H < 2 ^ 16) (hp : g.pixels.Within (InFrame g.pitch W H))
    {x y w h : ℕ} (hx : x + w ≤ W) (hw : 0 < w) (hy : y + h ≤ H) (hh : 0 < h)
    (color : BitVec 32) :
    (graphicsRect g x y w h color).pixels.Within (InFrame g.pitch W H) := by
  refine rectRows_within hp color fun r hr i hi => ?_
  rw [u32_of_lt (n := y + h) (by omega)] at hr
  rw [offset_eq g.pitch_lt (by omega) (by omega)]
  exact ⟨x + i, y + r, by omega, by omega, by ring⟩

/-- A glyph inside the frame is painted inside the frame. -/
theorem graphicsChar_within {g : Graphics} {W H : ℕ}
    (hW : W < 2 ^ 16) (hH : H < 2 ^ 16) (hp : g.pixels.Within (InFrame g.pitch W H))
    {x y : ℕ} (hx : x + 8 ≤ W) (hy : y + 16 ≤ H) (c : ℕ) (fg bg : BitVec 32) :
    (graphicsChar g x y c fg bg).pixels.Within (InFrame g.pitch W H) := by
  unfold graphicsChar
  refine charRows_within hp fg bg fun r hr i hi => ?_
  rw [offset_eq g.pitch_lt (by omega) (by omega)]
  exact ⟨x + i, y + r, by omega, by omega, by ring⟩

end OsdevX64.Console
