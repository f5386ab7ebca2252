import OsdevX64.Console.Pixels
import OsdevX64.Lib.GuardedRun
import OsdevX64.Lib.Sweep

/-!
# The screen shows the text buffer

The text is kept twice, as cells and as pixels.  A put writes both and a scroll
paints every cell anew; the cursor is paint only: a strip of two columns, drawn in
the foreground colour and taken off in the background colour that is current when
it leaves.  So `Coherent` asks that every column of every cell shows its glyph, but
for the first two columns of the cell under the cursor.

Taking the strip off restores the cell only if these two columns were blank in the
colour that is current now (`Screen.StripBlank`).  Where the cursor's cell is put
anew or the screen is scrolled this does not matter; a newline above the last row
and a backspace leave the cell as it is (`Screen.Leaves`).  **The screen is coherent
in every state exactly if no call leaves a cell whose strip is not blank**
(`coherent_iff`).
-/

namespace OsdevX64.Console

open ByteMemory MachineInt CLib GuardedRun

/-! ## Coherence -/

/-- The glyph table in memory. -/
def terminusFont : Memory ℕ := fun o => terminus16.getD o 0

/-- `GFX_BLACK`. -/
def gfxBlack : BitVec 32 := 0xFF3B4252

/-- The console after `graphics_init`, with a frame of `w × h` pixels. -/
def Screen.cleared (framebuffer : ℕ → BitVec 32) (font : Memory ℕ) (pitch : Fin (2 ^ 16))
    (w h : ℕ) : Screen :=
  let s := Screen.boot framebuffer font pitch
  { s with graphics := graphicsClear s.graphics w h gfxBlack }

/-- Column `k` of a cell shows its glyph in its colours. -/
def Screen.ShowsColumn (s : Screen) (i j k : ℕ) : Prop :=
  ∀ r < 16, s.block i j r k = (s.terminal.glyphAt i j).pixel s.graphics.font.cell r k

/-- Every cell shows its glyph. -/
def Screen.ShowsAll (s : Screen) : Prop :=
  ∀ i < s.terminal.height, ∀ j < s.terminal.width, ∀ k < 8, s.ShowsColumn i j k

/-- **Every cell shows its glyph**, the one under the cursor from the third column on. -/
def Coherent (s : Screen) : Prop :=
  ∀ i < s.terminal.height, ∀ j < s.terminal.width, ∀ k < 8,
    (i = s.terminal.y ∧ j = s.terminal.x → 2 ≤ k) → s.ShowsColumn i j k

/-- The first two columns of the glyph under the cursor are in the current background
colour. -/
def Screen.StripBlank (s : Screen) : Prop :=
  ∀ k < 2, ∀ r < 16,
    (s.terminal.glyphAt s.terminal.y s.terminal.x).pixel s.graphics.font.cell r k =
      gfxColors.getD s.terminal.bg 0

/-- The character moves the cursor off its cell, which is neither put nor scrolled: a
newline above the last row, a backspace but in the first cell. -/
def Screen.Leaves (s : Screen) (c : ℕ) : Prop :=
  (s.terminal.x < s.terminal.width ∧ s.terminal.y < s.terminal.height) ∧
    (c = 10 ∧ s.terminal.y + 1 < s.terminal.height ∨
      c = 8 ∧ ¬ (s.terminal.x = 0 ∧ s.terminal.y = 0))

/-- No cell is left whose strip is not blank. -/
def LeavesBlank (s : Screen) : Call → Prop
  | .char c => s.Leaves c → s.StripBlank
  | _ => True

/-! ## Pitch and glyphs stay as they are -/

/-- The same pitch and the same glyph table. -/
structure SameDevice (g g' : Graphics) : Prop where
  pitch : g'.pitch = g.pitch
  font : g'.font.cell = g.font.cell

theorem SameDevice.refl (g : Graphics) : SameDevice g g := ⟨rfl, rfl⟩

theorem SameDevice.trans {g g' g'' : Graphics} (h : SameDevice g g') (h' : SameDevice g' g'') :
    SameDevice g g'' := ⟨h'.pitch.trans h.pitch, h'.font.trans h.font⟩

theorem terminalPut_device (s : Screen) (c fg bg x y : ℕ) :
    SameDevice s.graphics (terminalPut s c fg bg x y).graphics :=
  ⟨graphicsChar_pitch _ _ _ _ _ _, charRows_font _ _ _ _ _ _⟩

theorem terminalCursor_device (s : Screen) (color : ℕ) :
    SameDevice s.graphics (terminalCursor s color).graphics := by
  unfold terminalCursor
  dsimp only
  split_ifs <;> exact ⟨rfl, rfl⟩

theorem redrawCell_device (s : Screen) (x y : ℕ) :
    SameDevice s.graphics (redrawCell s x y).graphics :=
  terminalPut_device (s.setBuffer (s.terminal.buffer.loadBytes (2 * s.terminal.index x y) 2).2)
    _ _ _ _ _

theorem redraw_device (s : Screen) : SameDevice s.graphics (redraw s).graphics := by
  unfold redraw
  refine List.foldlRecOn (motive := fun r : Screen => SameDevice s.graphics r.graphics) _ _
    (SameDevice.refl s.graphics) ?_
  intro r hr y _
  refine List.foldlRecOn (motive := fun r : Screen => SameDevice s.graphics r.graphics) _ _ hr ?_
  intro q hq x _
  exact hq.trans (redrawCell_device q x y)

theorem scroll_device (s : Screen) : SameDevice s.graphics (scroll s).graphics :=
  redraw_device (s.setBuffer (scrollBuffer s.terminal))

theorem typed_device (s : Screen) (c : ℕ) : SameDevice s.graphics (typed s c).graphics := by
  unfold typed
  rw [putAdvance_eq]
  split_ifs
  · exact terminalPut_device (s.moveTo s.terminal.stepBack.1 s.terminal.stepBack.2) _ _ _ _ _
  · exact SameDevice.refl s.graphics
  · exact terminalPut_device s _ _ _ _ _
  · exact terminalPut_device s _ _ _ _ _

theorem terminalChar_device (s : Screen) (c : ℕ) :
    SameDevice s.graphics (terminalChar s c).graphics := by
  have hfirst := terminalCursor_device s s.terminal.bg
  have htyped := typed_device (erased s c) c
  rw [terminalChar_eq]
  generalize typed (erased s c) c = q at htyped
  have hq : SameDevice s.graphics q.graphics := hfirst.trans htyped
  dsimp only
  split_ifs
  · exact (hq.trans (scroll_device q)).trans (terminalCursor_device _ _)
  · exact hq.trans (terminalCursor_device _ _)

theorem apply_device (s : Screen) (call : Call) :
    SameDevice s.graphics (call.apply s).graphics := by
  cases call with
  | char c => exact terminalChar_device s c
  | setColor fg bg => exact SameDevice.refl s.graphics
  | setFg fg => exact SameDevice.refl s.graphics
  | setBg bg => exact SameDevice.refl s.graphics

theorem runCalls_device (s : Screen) (calls : List Call) :
    SameDevice s.graphics (runCalls s calls).graphics := by
  induction calls generalizing s with
  | nil => exact SameDevice.refl s.graphics
  | cons call calls ih => exact (apply_device s call).trans (ih (call.apply s))

/-! ## Columns -/

section Columns

variable {s : Screen} {i j k : ℕ}

/-- **A put shows its glyph** and leaves the other cells as they are. -/
theorem showsColumn_terminalPut (hs : Drawable s) {x y : ℕ} (hx : x < s.terminal.width)
    (hy : y < s.terminal.height) {c fg bg : ℕ} (hfits : (Glyph.mk c fg bg).Fits)
    (hj : j < s.terminal.width) (hk : k < 8) :
    (terminalPut s c fg bg x y).ShowsColumn i j k ↔ (i = y ∧ j = x) ∨ s.ShowsColumn i j k := by
  unfold Screen.ShowsColumn
  rw [glyphAt_terminalPut hs.cells_lt hx hy hfits hj, (terminalPut_device s c fg bg x y).font]
  constructor
  · intro h
    by_cases hij : i = y ∧ j = x
    · exact .inl hij
    · refine .inr fun r hr => ?_
      have hcolumn := h r hr
      rwa [block_terminalPut hs hx hy hj hr hk, if_neg hij, if_neg hij] at hcolumn
  · intro h r hr
    rw [block_terminalPut hs hx hy hj hr hk]
    by_cases hij : i = y ∧ j = x
    · rw [if_pos hij, if_pos hij]
    · rw [if_neg hij, if_neg hij]
      exact h.resolve_left hij r hr

/-- Outside its strip the cursor changes nothing. -/
theorem showsColumn_terminalCursor (hs : Drawable s) (hp : Placed s) (hj : j < s.terminal.width)
    (hk : k < 8) (color : ℕ) (hout : i = s.terminal.y ∧ j = s.terminal.x → 2 ≤ k) :
    (terminalCursor s color).ShowsColumn i j k ↔ s.ShowsColumn i j k := by
  have hnot : ¬ ((i = s.terminal.y ∧ j = s.terminal.x) ∧ k < 2) :=
    fun h => absurd h.2 (Nat.not_lt.mpr (hout h.1))
  unfold Screen.ShowsColumn
  rw [terminalCursor_terminal, (terminalCursor_device s color).font]
  refine forall₂_congr fun r hr => ?_
  rw [block_terminalCursor hs hp.x hp.y hj hr hk, if_neg hnot]

/-- The strip shows the glyph if it has its colour. -/
theorem showsColumn_strip (hs : Drawable s) (hp : Placed s) (hk : k < 2) (color : ℕ) :
    (terminalCursor s color).ShowsColumn s.terminal.y s.terminal.x k ↔
      ∀ r < 16, gfxColors.getD color 0 =
        (s.terminal.glyphAt s.terminal.y s.terminal.x).pixel s.graphics.font.cell r k := by
  unfold Screen.ShowsColumn
  rw [terminalCursor_terminal, (terminalCursor_device s color).font]
  refine forall₂_congr fun r hr => ?_
  rw [block_terminalCursor hs hp.x hp.y hp.x hr (by omega), if_pos ⟨⟨rfl, rfl⟩, hk⟩]

/-! ## The redraw -/

theorem showsColumn_redrawCell (hs : Drawable s) {x y : ℕ} (hx : x < s.terminal.width)
    (hy : y < s.terminal.height) (hj : j < s.terminal.width) (hk : k < 8) :
    (redrawCell s x y).ShowsColumn i j k ↔ (i = y ∧ j = x) ∨ s.ShowsColumn i j k := by
  generalize hbuffer : (s.terminal.buffer.loadBytes (2 * s.terminal.index x y) 2).2 = buffer
  have hcell : buffer.cell = s.terminal.buffer.cell := by
    rw [← hbuffer, Tracked.cell_loadBytes]
  have hread : Drawable (s.setBuffer buffer) := ⟨hs.columns, hs.rows⟩
  have hsame : (s.setBuffer buffer).ShowsColumn i j k ↔ s.ShowsColumn i j k := by
    unfold Screen.ShowsColumn Terminal.glyphAt
    rw [setBuffer_buffer, hcell]
    exact Iff.rfl
  have hput := showsColumn_terminalPut (i := i) hread hx hy
    (Glyph.ofEntry_fits (half_lt s.terminal.buffer.cell (s.terminal.index x y))) hj hk
  rw [hsame] at hput
  unfold redrawCell
  rw [← hput]
  exact Iff.of_eq (by rw [← hbuffer]; rfl)

/-- **The redraw shows every cell**, whatever was on the screen. -/
theorem redraw_showsAll (hs : Drawable s) : (redraw s).ShowsAll := by
  have hpixels := @Sweep.foldl_foldl_settles Screen ℕ ℕ (fun s y x => redrawCell s x y)
    (fun q => Drawable q ∧ SameFrame s.terminal q.terminal)
    (fun q y x => ∀ k < 8, q.ShowsColumn y x k) (List.range s.terminal.height)
    (fun q => List.range q.terminal.width) (List.range s.terminal.width)
    (fun q hq => by rw [hq.2.width]) ?_ ?_ ?_ s ⟨hs, (SameText.refl _).frame⟩
  · intro i hi j hj k hk
    have hframe := hpixels.1.2
    exact hpixels.2 i (List.mem_range.mpr (hframe.height ▸ hi)) j
      (List.mem_range.mpr (hframe.width ▸ hj)) k hk
  · rintro q y x - - ⟨hq, hframe⟩
    have hstep := (redrawCell_sameText q x y).frame
    exact ⟨hq.of_sameFrame hstep (redrawCell_device q x y).pitch, hframe.trans hstep⟩
  · rintro q y x hy hx ⟨hq, hframe⟩ k hk
    rw [List.mem_range, ← hframe.width] at hx
    rw [List.mem_range, ← hframe.height] at hy
    exact (showsColumn_redrawCell hq hx hy hx hk).mpr (.inl ⟨rfl, rfl⟩)
  · rintro q y x y' x' hy hx - hx' ⟨hq, hframe⟩ hshown k hk
    rw [List.mem_range, ← hframe.width] at hx hx'
    rw [List.mem_range, ← hframe.height] at hy
    exact (showsColumn_redrawCell hq hx hy hx' hk).mpr (.inr (hshown k hk))

/-- **The scroll shows every cell.** -/
theorem scroll_showsAll (hs : Drawable s) : (scroll s).ShowsAll := by
  have hmoved : Drawable (s.setBuffer (scrollBuffer s.terminal)) := ⟨hs.columns, hs.rows⟩
  exact redraw_showsAll hmoved

/-! ## One character -/

/-- Every cell is shown but for the strip under the cursor, which is if `blank`. -/
def ShownBut (s : Screen) (blank : Prop) : Prop :=
  ∀ i < s.terminal.height, ∀ j < s.terminal.width, ∀ k < 8,
    (i = s.terminal.y ∧ j = s.terminal.x → k < 2 → blank) → s.ShowsColumn i j k

theorem erased_drawable (hs : Drawable s) (c : ℕ) : Drawable (erased s c) :=
  hs.of_sameFrame (erased_frame s c) (terminalCursor_device s _).pitch

/-- Taking the cursor off restores its cell if the strip is blank. -/
theorem erased_shownBut (hs : Drawable s) (hp : Placed s) (hc : Coherent s) (c : ℕ) :
    ShownBut (erased s c) s.StripBlank := by
  unfold ShownBut
  rw [erased_terminal]
  intro i hi j hj k hk hblank
  by_cases hstrip : (i = s.terminal.y ∧ j = s.terminal.x) ∧ k < 2
  · obtain ⟨⟨rfl, rfl⟩, hk2⟩ := hstrip
    refine (showsColumn_strip hs hp hk2 s.terminal.bg).mpr fun r hr => ?_
    exact (hblank ⟨rfl, rfl⟩ hk2 k hk2 r hr).symm
  · have hout : i = s.terminal.y ∧ j = s.terminal.x → 2 ≤ k := fun h => by
      by_contra hlt
      exact hstrip ⟨h, by omega⟩
    exact (showsColumn_terminalCursor hs hp hj hk _ hout).mpr (hc i hi j hj k hk hout)

/-- A character is put over the strip. -/
theorem putAdvance_showsAll (hs : Drawable s) (hp : Placed s) {blank : Prop}
    (hshown : ShownBut s blank) {c : ℕ} (hfits : (Glyph.mk c s.terminal.fg s.terminal.bg).Fits) :
    (putAdvance s c).ShowsAll := by
  have hput : ∀ i < s.terminal.height, ∀ j < s.terminal.width, ∀ k < 8,
      (terminalPut s c s.terminal.fg s.terminal.bg s.terminal.x s.terminal.y).ShowsColumn
        i j k := by
    intro i hi j hj k hk
    refine (showsColumn_terminalPut hs hp.x hp.y hfits hj hk).mpr ?_
    by_cases hij : i = s.terminal.y ∧ j = s.terminal.x
    · exact .inl hij
    · exact .inr (hshown i hi j hj k hk fun h => absurd h hij)
  rw [putAdvance_eq]
  split_ifs
  · exact hput
  · exact hput

/-- A newline leaves the strip behind. -/
theorem newline_showsAll {blank : Prop} (hshown : ShownBut s blank) (hblank : blank) :
    (newline s).ShowsAll :=
  fun i hi j hj k hk => hshown i hi j hj k hk fun _ _ => hblank

/-- A backspace leaves the strip behind, but in the first cell. -/
theorem backspace_showsAll (hs : Drawable s) (hp : Placed s) {blank : Prop}
    (hshown : ShownBut s blank) (hfits : (Glyph.mk 32 s.terminal.fg s.terminal.bg).Fits)
    (hblank : ¬ (s.terminal.x = 0 ∧ s.terminal.y = 0) → blank) : (backspace s).ShowsAll := by
  obtain ⟨hx, hy⟩ := Terminal.stepBack_lt hp.x hp.y
  have hmoved : Drawable (s.moveTo s.terminal.stepBack.1 s.terminal.stepBack.2) :=
    ⟨hs.columns, hs.rows⟩
  intro i hi j hj k hk
  refine (showsColumn_terminalPut hmoved hx hy hfits hj hk).mpr ?_
  by_cases hij : i = s.terminal.stepBack.2 ∧ j = s.terminal.stepBack.1
  · exact .inl hij
  · refine .inr (hshown i hi j hj k hk ?_)
    rintro ⟨rfl, rfl⟩ -
    exact hblank fun hfirst => hij (s.terminal.stepBack_stays_iff.mpr hfirst)

/-- Before the scroll every cell is shown, unless the cursor has left a cell whose
strip is not blank. -/
theorem typed_showsAll (hs : Drawable s) (hp : Placed s)
    (hfits : ∀ c < 2 ^ 8, (Glyph.mk c s.terminal.fg s.terminal.bg).Fits) {c : ℕ} (hc : c < 2 ^ 8)
    {blank : Prop} (hshown : ShownBut s blank) (hguard : s.Leaves c → blank)
    (hrow : (typed s c).terminal.y < s.terminal.height) : (typed s c).ShowsAll := by
  have hy := hp.y
  have hrows := hs.rows
  unfold typed at hrow ⊢
  split_ifs at hrow ⊢ with hback hline
  · exact backspace_showsAll hs hp hshown (hfits 32 (by decide)) fun hmoved =>
      hguard ⟨⟨hp.x, hp.y⟩, .inr ⟨hback, hmoved⟩⟩
  · have hnext : u32 (s.terminal.y + 1) = s.terminal.y + 1 := u32_of_lt (by omega)
    have hbelow : s.terminal.y + 1 < s.terminal.height := hnext ▸ hrow
    exact newline_showsAll hshown (hguard ⟨⟨hp.x, hp.y⟩, .inl ⟨hline, hbelow⟩⟩)
  · exact putAdvance_showsAll hs hp hshown (hfits c hc)

/-- **A character keeps the screen coherent**, unless the cursor leaves a cell whose
strip is not blank. -/
theorem terminalChar_coherent (hs : Drawable s) (hp : Placed s) (hc : Coherent s)
    (hfits : ∀ c < 2 ^ 8, (Glyph.mk c s.terminal.fg s.terminal.bg).Fits) {c : ℕ} (hchar : c < 2 ^ 8)
    (hguard : s.Leaves c → s.StripBlank) (hplaced : Placed (terminalChar s c)) :
    Coherent (terminalChar s c) := by
  have hterminal := erased_terminal s c
  have hdraw := erased_drawable hs c
  have hshown := erased_shownBut hs hp hc c
  rw [terminalChar_eq] at hplaced ⊢
  generalize erased s c = q at *
  have htyped := typed_frame q c
  have hall : (typed q c).terminal.y < q.terminal.height → (typed q c).ShowsAll := by
    unfold Screen.Leaves at hguard
    rw [← hterminal] at hguard hfits
    exact typed_showsAll hdraw ⟨hterminal ▸ hp.x, hterminal ▸ hp.y⟩ hfits hchar hshown hguard
  have hdraw' := hdraw.of_sameFrame htyped (typed_device q c).pitch
  generalize typed q c = q' at *
  dsimp only at hplaced ⊢
  have hfinal : Drawable (if q'.terminal.y ≥ q'.terminal.height then scroll q' else q') ∧
      (if q'.terminal.y ≥ q'.terminal.height then scroll q' else q').ShowsAll := by
    split_ifs with hbelow
    · exact ⟨hdraw'.of_sameFrame (scroll_frame q').1 (scroll_device q').pitch,
        scroll_showsAll hdraw'⟩
    · exact ⟨hdraw', hall (by rw [← htyped.height]; omega)⟩
  generalize (if q'.terminal.y ≥ q'.terminal.height then scroll q' else q') = z at *
  obtain ⟨hx, hy⟩ := hplaced
  rw [terminalCursor_terminal] at hx hy
  unfold Coherent
  rw [terminalCursor_terminal]
  intro i hi j hj k hk hout
  exact (showsColumn_terminalCursor hfinal.1 ⟨hx, hy⟩ hj hk _ hout).mpr (hfinal.2 i hi j hj k hk)

/-- A cell that is left is neither written nor painted. -/
theorem typed_leaves (hs : Drawable s) (hfits : (Glyph.mk 32 s.terminal.fg s.terminal.bg).Fits)
    {c : ℕ} (hleaves : s.Leaves c) :
    Placed (typed s c) ∧
      ¬ (s.terminal.y = (typed s c).terminal.y ∧ s.terminal.x = (typed s c).terminal.x) ∧
      ∀ k < 8, ((typed s c).ShowsColumn s.terminal.y s.terminal.x k ↔
        s.ShowsColumn s.terminal.y s.terminal.x k) := by
  have hrows := hs.rows
  obtain ⟨⟨hx, hy⟩, ⟨rfl, hbelow⟩ | ⟨rfl, hmoved⟩⟩ := hleaves
  · have hnext : u32 (s.terminal.y + 1) = s.terminal.y + 1 := u32_of_lt (by omega)
    have htyped : typed s 10 = s.moveTo 0 (s.terminal.y + 1) := by
      rw [← hnext]
      rfl
    rw [htyped, moveTo_y]
    exact ⟨⟨Nat.zero_lt_of_lt hx, hbelow⟩, fun h => absurd h.1 (by omega), fun k _ => Iff.rfl⟩
  · obtain ⟨hcolumn, hrow⟩ := Terminal.stepBack_lt hx hy
    have hother := mt s.terminal.stepBack_stays_iff.mp hmoved
    have hdraw : Drawable (s.moveTo s.terminal.stepBack.1 s.terminal.stepBack.2) :=
      ⟨hs.columns, hs.rows⟩
    exact ⟨⟨hcolumn, hrow⟩, hother, fun k hk =>
      (showsColumn_terminalPut hdraw hcolumn hrow hfits hx hk).trans (or_iff_right hother)⟩

/-- **Leaving a cell whose strip is not blank** makes the screen incoherent. -/
theorem terminalChar_incoherent (hs : Drawable s) (hp : Placed s)
    (hfits : (Glyph.mk 32 s.terminal.fg s.terminal.bg).Fits) {c : ℕ} (hleaves : s.Leaves c)
    (hblank : ¬ s.StripBlank) : ¬ Coherent (terminalChar s c) := by
  intro hcoherent
  apply hblank
  intro k hk r hr
  have hterminal := erased_terminal s c
  have hdraw := erased_drawable hs c
  have herased : (erased s c).ShowsColumn s.terminal.y s.terminal.x k ↔
      (terminalCursor s s.terminal.bg).ShowsColumn s.terminal.y s.terminal.x k := Iff.rfl
  rw [showsColumn_strip hs hp hk] at herased
  rw [terminalChar_eq] at hcoherent
  have hx := hp.x
  have hy := hp.y
  unfold Screen.Leaves at hleaves
  rw [← hterminal] at hleaves hfits hx hy
  have hmoved := typed_leaves hdraw hfits hleaves
  have hframe := typed_frame (erased s c) c
  have hdevice := typed_device (erased s c) c
  rw [hterminal] at hmoved
  generalize erased s c = q at *
  have hdraw' := hdraw.of_sameFrame hframe hdevice.pitch
  generalize typed q c = q' at *
  obtain ⟨hplaced, hother, hsame⟩ := hmoved
  dsimp only at hcoherent
  rw [if_neg (Nat.not_le.mpr hplaced.y)] at hcoherent
  -- the cell that was left is another one than the cell under the cursor
  have hout : s.terminal.y = q'.terminal.y ∧ s.terminal.x = q'.terminal.x → 2 ≤ k :=
    fun h => absurd h hother
  rw [← hframe.width, hterminal] at hx
  rw [← hframe.height, hterminal] at hy
  have hcolumn := hcoherent s.terminal.y (by rwa [terminalCursor_terminal]) s.terminal.x
    (by rwa [terminalCursor_terminal]) k (by omega) (by rwa [terminalCursor_terminal])
  have hstrip := herased.mp ((hsame k (by omega)).mp
    ((showsColumn_terminalCursor hdraw' hplaced hx (by omega) _ hout).mp hcolumn))
  exact (hstrip r hr).symm

/-! ## Runs -/

/-- Sizes, cursor and colours of a terminal in a frame of `w × h` pixels whose rows do
not overlap. -/
structure Steady (w h : ℕ) (s : Screen) : Prop where
  bounded : Bounded w h s
  placed : Placed s
  pitch : w ≤ s.graphics.pitch
  fg : s.terminal.fg ≤ 7
  bg : s.terminal.bg ≤ 7

variable {w h : ℕ}

theorem Steady.drawable (hs : Steady w h s) (hh : h ≤ 65535) : Drawable s where
  columns := by
    have hwidth := hs.bounded.width
    have hpitch := hs.pitch
    omega
  rows := by
    have hheight := hs.bounded.height
    omega

theorem Steady.fits (hs : Steady w h s) {c : ℕ} (hc : c < 2 ^ 8) :
    (Glyph.mk c s.terminal.fg s.terminal.bg).Fits where
  c := hc
  fg := Nat.lt_of_le_of_lt hs.fg (by decide)
  bg := Nat.lt_of_le_of_lt hs.bg (by decide)

theorem Steady.apply (hw : w ≤ 65535) (hh : h ≤ 65535) (hs : Steady w h s) {call : Call}
    (hcall : call.Allowed) : Steady w h (call.apply s) := by
  obtain ⟨hb, hp⟩ := apply_bounded (by omega) (by omega) hs.bounded hs.placed call
  cases call with
  | char c =>
      have hframe := terminalChar_frame s c
      exact ⟨hb, hp, (terminalChar_device s c).pitch ▸ hs.pitch, hframe.fg.trans_le hs.fg,
        hframe.bg.trans_le hs.bg⟩
  | setColor fg bg => exact ⟨hb, hp, hs.pitch, hcall.1, hcall.2⟩
  | setFg fg => exact ⟨hb, hp, hs.pitch, hcall, hs.bg⟩
  | setBg bg => exact ⟨hb, hp, hs.pitch, hs.fg, hcall⟩

theorem coherent_guarded (hw : w ≤ 65535) (hh : h ≤ 65535) :
    GuardedAt Call.apply Call.Allowed (Steady w h) Coherent LeavesBlank where
  stable s call hs hcall := hs.apply hw hh hcall
  keeps s call hs hcall hc hguard := by
    have hnext := hs.apply hw hh hcall
    cases call with
    | char c =>
        have hchar : (32 ≤ c ∧ c ≤ 126) ∨ c = 8 ∨ c = 10 := hcall
        exact terminalChar_coherent (hs.drawable hh) hs.placed hc (fun c hc => hs.fits hc)
          (by omega) hguard hnext.placed
    | setColor fg bg => exact hc
    | setFg fg => exact hc
    | setBg bg => exact hc
  breaks s call hs _ _ hguard := by
    cases call with
    | char c =>
        obtain ⟨hleaves, hblank⟩ := Classical.not_imp.mp hguard
        exact terminalChar_incoherent (hs.drawable hh) hs.placed (hs.fits (by decide)) hleaves
          hblank
    | setColor fg bg => exact absurd trivial hguard
    | setFg fg => exact absurd trivial hguard
    | setBg bg => exact absurd trivial hguard

/-- A frame that is too small for a cell. -/
def NoCells (s : Screen) : Prop := s.terminal.width = 0 ∨ s.terminal.height = 0

theorem NoCells.coherent (hs : NoCells s) : Coherent s := by
  intro i hi j hj
  unfold NoCells at hs
  omega

theorem NoCells.apply (hs : NoCells s) (call : Call) : NoCells (call.apply s) := by
  cases call with
  | char c =>
      have hframe := terminalChar_frame s c
      unfold NoCells at hs ⊢
      rw [← hframe.width, ← hframe.height] at hs
      exact hs
  | setColor fg bg => exact hs
  | setFg fg => exact hs
  | setBg bg => exact hs

theorem noCells_guarded : GuardedAt Call.apply Call.Allowed NoCells Coherent LeavesBlank where
  stable s call hs _ := hs.apply call
  keeps s call hs _ _ _ := (hs.apply call).coherent
  breaks s call hs _ _ hguard := by
    cases call with
    | char c =>
        obtain ⟨⟨⟨hx, hy⟩, -⟩, -⟩ := Classical.not_imp.mp hguard
        unfold NoCells at hs
        omega
    | setColor fg bg => exact absurd trivial hguard
    | setFg fg => exact absurd trivial hguard
    | setBg bg => exact absurd trivial hguard

end Columns

/-! ## From the start -/

/-- The glyph of the space has no bits. -/
theorem glyphBit_space : ∀ r < 16, ∀ k < 8, glyphBit terminusFont 32 r k = false := by
  decide +kernel

section Start

variable {w h : ℕ} (framebuffer : ℕ → BitVec 32) (heap : Memory ℕ) (pitch : Fin (2 ^ 16))

/-- After `terminal_init` the cells are blank and the screen is black. -/
theorem start_coherent (hh : h ≤ 65535) (hpitch : w ≤ pitch) :
    Coherent (terminalInit (Screen.cleared framebuffer terminusFont pitch w h) heap w h) := by
  have hmul : w / 8 * (h / 16) ≤ 2 ^ 13 * 2 ^ 12 := Nat.mul_le_mul (by omega) (by omega)
  intro i hi j hj k hk _ r hr
  have hi' : i < h / 16 := hi
  have hj' : j < w / 8 := hj
  have hcolumn : 8 * j + k < (Screen.boot framebuffer terminusFont pitch).graphics.pitch := by
    show 8 * j + k < (pitch : ℕ)
    omega
  have hblack := pixel_graphicsRect (g := (Screen.boot framebuffer terminusFont pitch).graphics)
    (x := 0) (y := 0) (w := w) (h := h) ((Nat.zero_add w).trans_le hpitch) (by omega) gfxBlack
    (16 * i + r) hcolumn
  rw [if_pos (by omega)] at hblack
  rw [glyphAt_terminalInit _ heap (by omega) hi' hj']
  refine hblack.trans ?_
  have hbit : glyphBit terminusFont 32 r k = false := glyphBit_space r hr k hk
  have hpixel : (Glyph.mk 32 terminalWhite terminalBlack).pixel terminusFont r k =
      gfxColors.getD terminalBlack 0 := by
    rw [Glyph.pixel, hbit]
    rfl
  exact hpixel.symm

theorem start_steady (hh : h ≤ 65535) (hpitch : w ≤ pitch) (hw8 : 8 ≤ w) (hh16 : 16 ≤ h) :
    Steady w h (terminalInit (Screen.cleared framebuffer terminusFont pitch w h) heap w h) := by
  obtain ⟨hb, hp⟩ := terminalInit_bounded (w := w) (h := h) (by omega) (by omega) hw8 hh16
    framebuffer terminusFont pitch heap
  have hpixels := graphicsRect_within (g := (Screen.boot framebuffer terminusFont pitch).graphics)
    (x := 0) (y := 0) (w := w) (h := h) (by omega : w < 2 ^ 16) (by omega : h < 2 ^ 16)
    (Tracked.within_fresh _) (by omega) (by omega) (by omega) (by omega) gfxBlack
  exact ⟨⟨hb.width, hb.height, hb.size, hb.puts, hb.buffer, hpixels⟩, ⟨hp.x, hp.y⟩, hpitch,
    (by decide : 7 ≤ 7), (by decide : 0 ≤ 7)⟩

/-- **The screen shows the text buffer in every state exactly if no call leaves a cell
whose strip is not blank**, in every run of characters and colours. -/
theorem coherent_iff (hh : h ≤ 65535) (hpitch : w ≤ pitch) (calls : List Call)
    (hcalls : ∀ call ∈ calls, call.Allowed) :
    let s := terminalInit (Screen.cleared framebuffer terminusFont pitch w h) heap w h
    (∀ pre, pre <+: calls → Coherent (runCalls s pre)) ↔
      Guarded Call.apply LeavesBlank s calls := by
  intro s
  have hstart := start_coherent framebuffer heap pitch hh hpitch
  by_cases hcells : 8 ≤ w ∧ 16 ≤ h
  · exact (coherent_guarded (by omega) hh).good_iff
      (start_steady framebuffer heap pitch hh hpitch hcells.1 hcells.2) hstart hcalls
  · have hnone : NoCells s := by
      show w / 8 = 0 ∨ h / 16 = 0
      omega
    exact noCells_guarded.good_iff hnone hstart hcalls

end Start

/-- The colours are changed, a letter is printed and taken back, and the next line
begins in the colours in which the cell was blanked. -/
theorem coherent_iff_word :
    let s := terminalInit (Screen.cleared (fun _ => 0) terminusFont 24 24 32) (fun _ => 0) 24 32
    let calls := [Call.setColor 2 1, .char 72, .char 8, .char 10]
    (∀ pre, pre <+: calls → Coherent (runCalls s pre)) ↔
      Guarded Call.apply LeavesBlank s calls :=
  coherent_iff (fun _ => 0) (fun _ => 0) 24 (by decide) (by decide)
    [.setColor 2 1, .char 72, .char 8, .char 10] (by decide)

/-- **The background is set to red and a line is left**: the first two columns of its
first cell are red, and the cell is a space, white on black. -/
theorem newline_leaves_red_strip :
    let s := runCalls
      (terminalInit (Screen.cleared (fun _ => 0) terminusFont 8 8 32) (fun _ => 0) 8 32)
      [.setBg terminalRed, .char 10]
    s.terminal.glyphAt 0 0 = ⟨32, terminalWhite, terminalBlack⟩ ∧
      s.block 0 0 0 0 = gfxColors.getD terminalRed 0 ∧ ¬ Coherent s := by
  intro s
  have hglyph : s.terminal.glyphAt 0 0 = ⟨32, terminalWhite, terminalBlack⟩ := by decide +kernel
  have hred : s.block 0 0 0 0 = gfxColors.getD terminalRed 0 := by decide +kernel
  refine ⟨hglyph, hred, fun hcoherent => ?_⟩
  have hcell := hcoherent 0 (by decide +kernel) 0 (by decide +kernel) 0 (by decide)
    (by decide +kernel) 0 (by decide)
  rw [hred, hglyph] at hcell
  exact absurd hcell (by decide +kernel)

end OsdevX64.Console
