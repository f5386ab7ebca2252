import OsdevX64.Console.Terminal

/-!
# The terminal stays in bounds

`Bounded` says that the sizes fit together and that every access so far was in
range: `terminal_put` coordinates, bytes of the buffer, pixels of the frame.
`Placed` says that the cursor is on a cell.

Inside one `terminal_char` the cursor may be one row below the last
(`y = height`), and nothing is drawn there: the scroll moves it back before the
next put.  So the invariant of a call is `Bounded` and `Placed`, and between the
branches and the scroll `Placed` is weakened to `y ≤ height`.
-/

namespace OsdevX64.Console

open ByteMemory MachineInt CLib

/-- Sizes are consistent with a `w × h` frame, and every access was in range. -/
structure Bounded (w h : ℕ) (s : Screen) : Prop where
  width : s.terminal.width = w / 8
  height : s.terminal.height = h / 16
  size : s.terminal.size = s.terminal.width * s.terminal.height
  puts : ∀ p ∈ s.puts, p.1 < s.terminal.width ∧ p.2 < s.terminal.height
  buffer : s.terminal.buffer.Within fun o => o < 2 * s.terminal.size
  pixels : s.graphics.pixels.Within (InFrame s.graphics.pitch w h)

/-- The cursor is on a cell. -/
structure Placed (s : Screen) : Prop where
  x : s.terminal.x < s.terminal.width
  y : s.terminal.y < s.terminal.height

/-- The calls of the kernel: printable ASCII, backspace, newline; eight colours. -/
def Call.Allowed : Call → Prop
  | .char c => (32 ≤ c ∧ c ≤ 126) ∨ c = 8 ∨ c = 10
  | .setColor fg bg => fg ≤ 7 ∧ bg ≤ 7
  | .setFg fg => fg ≤ 7
  | .setBg bg => bg ≤ 7

instance : (call : Call) → Decidable call.Allowed
  | .char c => inferInstanceAs (Decidable ((32 ≤ c ∧ c ≤ 126) ∨ c = 8 ∨ c = 10))
  | .setColor fg bg => inferInstanceAs (Decidable (fg ≤ 7 ∧ bg ≤ 7))
  | .setFg fg => inferInstanceAs (Decidable (fg ≤ 7))
  | .setBg bg => inferInstanceAs (Decidable (bg ≤ 7))

/-- A cell of a grid has an index below the number of cells. -/
theorem cell_lt {width height x y : ℕ} (hx : x < width) (hy : y < height) :
    y * width + x < width * height := by
  have hrow : (y + 1) * width ≤ height * width := Nat.mul_le_mul_right _ hy
  rw [Nat.succ_mul, Nat.mul_comm height] at hrow
  omega

/-- The cell index does not wrap when the size does not. -/
theorem Terminal.index_eq {t : Terminal} (hsize : t.width * t.height < 2 ^ 32) {x y : ℕ}
    (hx : x < t.width) (hy : y < t.height) : t.index x y = y * t.width + x := by
  have hcell := cell_lt hx hy
  rw [Terminal.index, u32_of_lt (n := y * t.width) (by omega), u32_of_lt (by omega)]

section Bounds

variable {w h : ℕ} {s : Screen}

/-- The number of cells of a frame with 16-bit sides. -/
theorem Bounded.size_lt (hb : Bounded w h s) (hw : w < 2 ^ 16) (hh : h < 2 ^ 16) :
    s.terminal.width * s.terminal.height < 2 ^ 32 := by
  have hmul : s.terminal.width * s.terminal.height ≤ 2 ^ 13 * 2 ^ 12 :=
    Nat.mul_le_mul (by rw [hb.width]; omega) (by rw [hb.height]; omega)
  omega

variable (hw : w < 2 ^ 16) (hh : h < 2 ^ 16)
include hw hh

theorem terminalPut_bounded (hb : Bounded w h s) {x y : ℕ} (hx : x < s.terminal.width)
    (hy : y < s.terminal.height) (c fg bg : ℕ) : Bounded w h (terminalPut s c fg bg x y) where
  width := hb.width
  height := hb.height
  size := hb.size
  puts := by
    intro p hp
    rcases List.mem_cons.mp hp with rfl | hp
    · exact ⟨hx, hy⟩
    · exact hb.puts p hp
  buffer := by
    have hcell := cell_lt hx hy
    rw [← hb.size, ← Terminal.index_eq (hb.size_lt hw hh) hx hy] at hcell
    refine hb.buffer.storeBytes fun i hi => ?_
    show 2 * s.terminal.index x y + i < 2 * s.terminal.size
    omega
  pixels := by
    have hwidth := hb.width
    have hheight := hb.height
    have hx8 : u32 (8 * x) = 8 * x := u32_of_lt (by omega)
    have hy16 : u32 (16 * y) = 16 * y := u32_of_lt (by omega)
    have hpaint := graphicsChar_within hw hh hb.pixels (x := 8 * x) (y := 16 * y)
      (by omega) (by omega) c (gfxColors.getD fg 0) (gfxColors.getD bg 0)
    simpa only [terminalPut, colorLookup, Screen.setBuffer, hx8, hy16, graphicsChar_pitch]
      using hpaint

theorem terminalCursor_bounded (hb : Bounded w h s) (hp : Placed s) (color : ℕ) :
    Bounded w h (terminalCursor s color) := by
  have hwidth := hb.width
  have hheight := hb.height
  have hx := hp.x
  have hy := hp.y
  refine ⟨by simpa using hwidth, by simpa using hheight, by simpa using hb.size,
    by simpa using hb.puts, by simpa using hb.buffer, ?_⟩
  unfold terminalCursor
  rw [if_neg (by omega), if_neg (by omega), u32_of_lt (n := s.terminal.x * 8) (by omega),
    u32_of_lt (n := s.terminal.y * 16) (by omega)]
  exact graphicsRect_within hw hh hb.pixels (by omega) (by omega) (by omega) (by omega) _

omit hw hh in
/-- Moving the cursor touches nothing. -/
theorem Bounded.moveTo (hb : Bounded w h s) (x y : ℕ) : Bounded w h (s.moveTo x y) :=
  ⟨hb.width, hb.height, hb.size, hb.puts, hb.buffer, hb.pixels⟩

omit hw hh in
theorem Bounded.setBuffer (hb : Bounded w h s) {buffer : Tracked ℕ Byte}
    (hbuf : buffer.Within fun o => o < 2 * s.terminal.size) :
    Bounded w h (s.setBuffer buffer) :=
  ⟨hb.width, hb.height, hb.size, hb.puts, hbuf, hb.pixels⟩

theorem backspace_bounded (hb : Bounded w h s) (hp : Placed s) :
    Bounded w h (backspace s) ∧ Placed (backspace s) := by
  obtain ⟨hx, hy⟩ := Terminal.stepBack_lt hp.x hp.y
  have hmove := hb.moveTo s.terminal.stepBack.1 s.terminal.stepBack.2
  unfold backspace
  exact ⟨terminalPut_bounded hw hh hmove hx hy 32 s.terminal.fg s.terminal.bg, hx, hy⟩

omit hw in
/-- A newline may leave the cursor one row below the last. -/
theorem newline_bounded (hb : Bounded w h s) (hp : Placed s) :
    Bounded w h (newline s) ∧ (newline s).terminal.x < (newline s).terminal.width ∧
      (newline s).terminal.y ≤ (newline s).terminal.height := by
  have hx := hp.x
  have hy := hp.y
  have hheight := hb.height
  have hy' : u32 (s.terminal.y + 1) = s.terminal.y + 1 := u32_of_lt (by omega)
  unfold newline
  rw [hy']
  exact ⟨hb.moveTo _ _, Nat.zero_lt_of_lt hx, hy⟩

theorem putAdvance_bounded (hb : Bounded w h s) (hp : Placed s) (c : ℕ) :
    Bounded w h (putAdvance s c) ∧ (putAdvance s c).terminal.x < (putAdvance s c).terminal.width ∧
      (putAdvance s c).terminal.y ≤ (putAdvance s c).terminal.height := by
  have hx := hp.x
  have hy := hp.y
  have hwidth := hb.width
  have hheight := hb.height
  have hx' : u32 (s.terminal.x + 1) = s.terminal.x + 1 := u32_of_lt (by omega)
  have hy' : u32 (s.terminal.y + 1) = s.terminal.y + 1 := u32_of_lt (by omega)
  have hput := terminalPut_bounded hw hh hb hx hy c s.terminal.fg s.terminal.bg
  rw [putAdvance_eq, hx', hy']
  by_cases hedge : s.terminal.x + 1 = s.terminal.width
  · rw [if_pos hedge]
    exact ⟨hput.moveTo _ _, Nat.zero_lt_of_lt hx, hy⟩
  · rw [if_neg hedge]
    have hin : s.terminal.x + 1 < s.terminal.width := by omega
    exact ⟨hput.moveTo _ _, hin, hy.le⟩

theorem redrawCell_bounded (hb : Bounded w h s) {x y : ℕ} (hx : x < s.terminal.width)
    (hy : y < s.terminal.height) : Bounded w h (redrawCell s x y) := by
  have hcell := cell_lt hx hy
  rw [← hb.size, ← Terminal.index_eq (hb.size_lt hw hh) hx hy] at hcell
  have hread : (s.terminal.buffer.loadBytes (2 * s.terminal.index x y) 2).2.Within
      fun o => o < 2 * s.terminal.size := by
    refine hb.buffer.loadBytes fun i hi => ?_
    rw [Nat.cast_id]
    omega
  exact terminalPut_bounded hw hh (hb.setBuffer hread) hx hy _ _ _

/-- The redraw keeps the accesses in range and the cursor where it is. -/
theorem redraw_bounded (hb : Bounded w h s) :
    Bounded w h (redraw s) ∧ (redraw s).terminal.x = s.terminal.x := by
  unfold redraw
  refine List.foldlRecOn (motive := fun r : Screen => Bounded w h r ∧
      r.terminal.x = s.terminal.x) _ _ ⟨hb, rfl⟩ ?_
  intro r hr y hy
  refine List.foldlRecOn (motive := fun r : Screen => Bounded w h r ∧
      r.terminal.x = s.terminal.x) _ _ hr ?_
  rintro q ⟨hq, hqx⟩ x hx
  have hx' : x < q.terminal.width := by
    rw [hq.width, ← hr.1.width]
    exact List.mem_range.mp hx
  have hy' : y < q.terminal.height := by
    rw [hq.height, ← hb.height]
    exact List.mem_range.mp hy
  exact ⟨redrawCell_bounded hw hh hq hx' hy', hqx⟩

omit hw hh in
/-- The scroll moves the buffer within its bounds. -/
theorem scrollBuffer_within (hb : Bounded w h s) (hheight : 0 < s.terminal.height) :
    (scrollBuffer s.terminal).Within fun o => o < 2 * s.terminal.size := by
  have hsize := hb.size
  have hrow : s.terminal.width ≤ s.terminal.size := by
    rw [hsize]
    exact Nat.le_mul_of_pos_right _ hheight
  have hsub : sub32 s.terminal.size s.terminal.width = s.terminal.size - s.terminal.width :=
    sub32_of_le hrow
  unfold scrollBuffer
  rw [hsub]
  refine memset16_within (memmove_within hb.buffer ?_ ?_) ?_ <;> intro i hi <;> omega

/-- The scroll brings a cursor below the last row back onto it. -/
theorem scroll_bounded (hb : Bounded w h s) (hx : s.terminal.x < s.terminal.width)
    (hheight : 0 < s.terminal.height) : Bounded w h (scroll s) ∧ Placed (scroll s) := by
  obtain ⟨hr, hrx⟩ := redraw_bounded hw hh (hb.setBuffer (scrollBuffer_within hb hheight))
  unfold scroll
  generalize redraw (s.setBuffer (scrollBuffer s.terminal)) = r at hr hrx
  have hlast : sub32 r.terminal.height 1 = r.terminal.height - 1 := by
    have hrheight := hr.height
    have hsheight := hb.height
    exact sub32_of_le (by omega)
  rw [setBuffer_x] at hrx
  dsimp only
  rw [hlast]
  refine ⟨hr.moveTo _ _, ?_, ?_⟩
  · rw [moveTo_x, moveTo_width, hrx, hr.width, ← hb.width]
    exact hx
  · rw [moveTo_y, moveTo_height, hr.height, ← hb.height]
    omega

/-- **One character keeps the terminal in bounds.** -/
theorem terminalChar_bounded (hb : Bounded w h s) (hp : Placed s) (c : ℕ) :
    Bounded w h (terminalChar s c) ∧ Placed (terminalChar s c) := by
  have hb₁ := terminalCursor_bounded hw hh hb hp s.terminal.bg
  set s₁ := terminalCursor s s.terminal.bg with hs₁
  have hp₁ : Placed s₁ := ⟨by simpa [hs₁] using hp.x, by simpa [hs₁] using hp.y⟩
  have hb₂ : Bounded w h (serialTx s₁ c) :=
    ⟨hb₁.width, hb₁.height, hb₁.size, hb₁.puts, hb₁.buffer, hb₁.pixels⟩
  have hp₂ : Placed (serialTx s₁ c) := ⟨hp₁.x, hp₁.y⟩
  set s₂ := serialTx s₁ c with hs₂
  set s₃ := if c = 8 then backspace s₂ else if c = 10 then newline s₂ else putAdvance s₂ c
    with hs₃
  have hb₃ : Bounded w h s₃ ∧ s₃.terminal.x < s₃.terminal.width ∧
      s₃.terminal.y ≤ s₃.terminal.height := by
    rw [hs₃]
    split_ifs
    · obtain ⟨hb, hp⟩ := backspace_bounded hw hh hb₂ hp₂
      exact ⟨hb, hp.x, hp.y.le⟩
    · exact newline_bounded hh hb₂ hp₂
    · exact putAdvance_bounded hw hh hb₂ hp₂ c
  obtain ⟨hb₃, hx₃, hy₃⟩ := hb₃
  have hheight₃ : 0 < s₃.terminal.height := by
    have := hp.y
    rw [hb₃.height, ← hb.height]
    omega
  -- here the cursor may be one row below the last, and only the scroll comes next
  set s₄ := if s₃.terminal.y ≥ s₃.terminal.height then scroll s₃ else s₃ with hs₄
  have hb₄ : Bounded w h s₄ ∧ Placed s₄ := by
    rw [hs₄]
    split_ifs with hfull
    · exact scroll_bounded hw hh hb₃ hx₃ hheight₃
    · exact ⟨hb₃, hx₃, by omega⟩
  have hlast := terminalCursor_bounded hw hh hb₄.1 hb₄.2 s₄.terminal.fg
  have heq : terminalChar s c = terminalCursor s₄ s₄.terminal.fg := by
    simp only [terminalChar, hs₄, hs₃, hs₂, hs₁]
  rw [heq]
  exact ⟨hlast, by simpa using hb₄.2.x, by simpa using hb₄.2.y⟩

theorem apply_bounded (hb : Bounded w h s) (hp : Placed s) (call : Call) :
    Bounded w h (call.apply s) ∧ Placed (call.apply s) := by
  cases call with
  | char c => exact terminalChar_bounded hw hh hb hp c
  | setColor fg bg =>
      exact ⟨⟨hb.width, hb.height, hb.size, hb.puts, hb.buffer, hb.pixels⟩, hp.x, hp.y⟩
  | setFg fg =>
      exact ⟨⟨hb.width, hb.height, hb.size, hb.puts, hb.buffer, hb.pixels⟩, hp.x, hp.y⟩
  | setBg bg =>
      exact ⟨⟨hb.width, hb.height, hb.size, hb.puts, hb.buffer, hb.pixels⟩, hp.x, hp.y⟩

theorem runCalls_bounded (hb : Bounded w h s) (hp : Placed s) (calls : List Call) :
    Bounded w h (runCalls s calls) ∧ Placed (runCalls s calls) := by
  induction calls generalizing s with
  | nil => exact ⟨hb, hp⟩
  | cons call calls ih =>
      obtain ⟨hb', hp'⟩ := apply_bounded hw hh hb hp call
      exact ih hb' hp'

omit s in
theorem terminalInit_bounded (hw8 : 8 ≤ w) (hh16 : 16 ≤ h) (framebuffer : ℕ → BitVec 32)
    (font : Memory ℕ) (pitch : Fin (2 ^ 16)) (heap : Memory ℕ) :
    Bounded w h (terminalInit (Screen.boot framebuffer font pitch) heap w h) ∧
      Placed (terminalInit (Screen.boot framebuffer font pitch) heap w h) := by
  have hmul : w / 8 * (h / 16) ≤ 2 ^ 13 * 2 ^ 12 := Nat.mul_le_mul (by omega) (by omega)
  have hsize : u32 (w / 8 * (h / 16)) = w / 8 * (h / 16) := u32_of_lt (by omega)
  refine ⟨⟨rfl, rfl, hsize, by simp [terminalInit, Screen.boot], ?_, Tracked.within_fresh _⟩,
    ⟨by dsimp only [terminalInit]; omega, by dsimp only [terminalInit]; omega⟩⟩
  exact memset16_within (Tracked.within_fresh heap) fun i hi => by
    dsimp only [terminalInit]
    omega

end Bounds

/-- **The terminal stays in bounds**, whatever is printed. -/
theorem terminal_in_bounds {w h : ℕ} (hw8 : 8 ≤ w) (hw : w ≤ 65535) (hh16 : 16 ≤ h)
    (hh : h ≤ 65535) (framebuffer : ℕ → BitVec 32) (font heap : Memory ℕ)
    (pitch : Fin (2 ^ 16)) (calls : List Call) (_allowed : ∀ call ∈ calls, call.Allowed) :
    let s := runCalls (terminalInit (Screen.boot framebuffer font pitch) heap w h) calls
    s.terminal.x < s.terminal.width ∧ s.terminal.y < s.terminal.height ∧ Bounded w h s := by
  obtain ⟨hb, hp⟩ := terminalInit_bounded (by omega) (by omega) hw8 hh16 framebuffer font pitch heap
  obtain ⟨hb', hp'⟩ := runCalls_bounded (by omega) (by omega) hb hp calls
  exact ⟨hp'.x, hp'.y, hb'⟩

theorem terminal_in_bounds_one_row :
    let s := runCalls (terminalInit (Screen.boot (fun _ => 0) (fun _ => 0) 8) (fun _ => 0) 8 16)
      [.char 97, .char 8, .setColor 2 0, .char 10]
    s.terminal.x < s.terminal.width ∧ s.terminal.y < s.terminal.height ∧ Bounded 8 16 s :=
  terminal_in_bounds (by decide) (by decide) (by decide) (by decide) _ _ _ 8
    [.char 97, .char 8, .setColor 2 0, .char 10] (by decide)

end OsdevX64.Console
