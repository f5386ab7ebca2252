import OsdevX64.Console.Glyph
import OsdevX64.Lib.RowLayout

/-!
# The terminal shows the tail of the text

The reference lays the printed text out in rows of glyphs (`Layout`), without
ever dropping one.  `ShowsFrom first` relates it to a terminal whose line 0 is
row `first` of the layout: the cursor is at the end of the last row, and every
cell shows the glyph at its place or a space.

A line feed and a full row keep `first` and may take the cursor one line below
the last; the scroll then moves on to `first + 1` (`scroll_shows`).  Between two
calls the cursor is on a line, which fixes `first` to be the number of rows that
do not fit (`Shows`).
-/

namespace OsdevX64.Console

open ByteMemory MachineInt CLib

/-- What the printed text looks like in rows of `width` glyphs, and the colours
of the next one. -/
structure Layout (width : ℕ) where
  text : RowLayout Glyph width
  fg : ℕ
  bg : ℕ

/-- One empty row, white on black. -/
def Layout.fresh {width : ℕ} (hwidth : 0 < width) : Layout width :=
  ⟨RowLayout.empty hwidth, terminalWhite, terminalBlack⟩

/-- One call. -/
def Layout.step {width : ℕ} (l : Layout width) : Call → Layout width
  | .char c =>
      if c = 10 then { l with text := l.text.newRow }
      else { l with text := l.text.put ⟨c, l.fg, l.bg⟩ }
  | .setColor fg bg => { l with fg := fg, bg := bg }
  | .setFg fg => { l with fg := fg }
  | .setBg bg => { l with bg := bg }

/-- The layout of a sequence of calls. -/
def layout {width : ℕ} (hwidth : 0 < width) (calls : List Call) : Layout width :=
  calls.foldl Layout.step (Layout.fresh hwidth)

/-- Calls that print text: printable ASCII, newline and colour changes. -/
def Call.PrintsText : Call → Prop
  | .char c => (32 ≤ c ∧ c ≤ 126) ∨ c = 10
  | .setColor fg bg => fg ≤ 7 ∧ bg ≤ 7
  | .setFg fg => fg ≤ 7
  | .setBg bg => bg ≤ 7

instance : (call : Call) → Decidable call.PrintsText
  | .char c => inferInstanceAs (Decidable ((32 ≤ c ∧ c ≤ 126) ∨ c = 10))
  | .setColor fg bg => inferInstanceAs (Decidable (fg ≤ 7 ∧ bg ≤ 7))
  | .setFg fg => inferInstanceAs (Decidable (fg ≤ 7))
  | .setBg bg => inferInstanceAs (Decidable (bg ≤ 7))

/-- A cell shows its glyph, or a space where there is none. -/
def Glyph.Matches (g : Glyph) : Option Glyph → Prop
  | some a => g = a
  | none => g.c = 32

/-! ## The simulation relation -/

/-- The terminal shows the rows of the layout from `first` on. -/
structure ShowsFrom (first : ℕ) {width : ℕ} (r : RowLayout Glyph width) (t : Terminal) :
    Prop where
  width : t.width = width
  x : t.x = r.last.length
  y : first + t.y + 1 = r.rows.length
  cells : ∀ i < t.height, ∀ j < t.width, (t.glyphAt i j).Matches (r.cell? (first + i) j)

/-- The sizes of a terminal of `w × h` pixels, and colours that fit a cell. -/
structure Sized (w h : ℕ) (t : Terminal) : Prop where
  width : t.width = w / 8
  height : t.height = h / 16
  size : t.size = t.width * t.height
  size_lt : t.size < 2 ^ 32
  fg : t.fg < 2 ^ 4
  bg : t.bg < 2 ^ 4

/-- The terminal shows the layout, with the current colours. -/
structure Shows (w h : ℕ) {width : ℕ} (l : Layout width) (t : Terminal) : Prop where
  sized : Sized w h t
  rows : ShowsFrom (l.text.rows.length - t.height) l.text t
  y_lt : t.y < t.height
  fg : t.fg = l.fg
  bg : t.bg = l.bg

section Simulation

variable {w h width first : ℕ} {r : RowLayout Glyph width} {s : Screen}

theorem ShowsFrom.x_lt (hr : ShowsFrom first r s.terminal) : s.terminal.x < s.terminal.width := by
  rw [hr.x, hr.width]
  exact r.last_lt

/-- In a frame that holds a cell, the sides are below the size. -/
theorem Sized.sides_lt (hs : Sized w h s.terminal) (hx : s.terminal.x < s.terminal.width)
    (hheight : 0 < s.terminal.height) :
    s.terminal.width < 2 ^ 32 ∧ s.terminal.height < 2 ^ 32 := by
  have hw := Nat.le_mul_of_pos_right s.terminal.width hheight
  have hh := Nat.le_mul_of_pos_left s.terminal.height (Nat.zero_lt_of_lt hx)
  have hlt := hs.size_lt
  rw [hs.size] at hlt
  omega

/-- A new line shows nothing new. -/
theorem newline_shows (hs : Sized w h s.terminal) (hr : ShowsFrom first r s.terminal)
    (hy : s.terminal.y < s.terminal.height) :
    ShowsFrom first r.newRow (newline s).terminal := by
  obtain ⟨-, hheight⟩ := hs.sides_lt hr.x_lt (Nat.zero_lt_of_lt hy)
  have hrow := hr.y
  have hy' : u32 (s.terminal.y + 1) = s.terminal.y + 1 := u32_of_lt (by omega)
  unfold newline
  rw [hy']
  refine ⟨hr.width, rfl, ?_, ?_⟩
  · rw [moveTo_y, RowLayout.length_rows]
    show _ = r.rows.length + 1
    omega
  · intro i hi j hj
    rw [glyphAt_moveTo, RowLayout.cell?_newRow]
    exact hr.cells i hi j hj

/-- The put shows the character at the end of the last row. -/
theorem put_cells (hs : Sized w h s.terminal) (hr : ShowsFrom first r s.terminal)
    (hy : s.terminal.y < s.terminal.height) {c : ℕ} (hc : c < 2 ^ 8) {i j : ℕ}
    (hi : i < s.terminal.height) (hj : j < s.terminal.width) :
    ((terminalPut s c s.terminal.fg s.terminal.bg s.terminal.x s.terminal.y).terminal.glyphAt
      i j).Matches ((r.put ⟨c, s.terminal.fg, s.terminal.bg⟩).cell? (first + i) j) := by
  have hrow := hr.y
  rw [RowLayout.length_rows] at hrow
  have hsize := hs.size_lt
  rw [hs.size] at hsize
  rw [glyphAt_terminalPut hsize hr.x_lt hy ⟨hc, hs.fg, hs.bg⟩ hj, RowLayout.cell?_put, hr.x]
  -- the put changes the cell under the cursor and no other
  by_cases hij : i = s.terminal.y ∧ j = r.last.length
  · rw [if_pos hij, if_pos ⟨by omega, hij.2⟩]
    rfl
  · rw [if_neg hij, if_neg (fun h => hij ⟨by omega, h.2⟩)]
    exact hr.cells i hi j hj

theorem putAdvance_shows (hs : Sized w h s.terminal) (hr : ShowsFrom first r s.terminal)
    (hy : s.terminal.y < s.terminal.height) {c : ℕ} (hc : c < 2 ^ 8) :
    ShowsFrom first (r.put ⟨c, s.terminal.fg, s.terminal.bg⟩) (putAdvance s c).terminal := by
  obtain ⟨hwidth, hheight⟩ := hs.sides_lt hr.x_lt (Nat.zero_lt_of_lt hy)
  have hx := hr.x_lt
  have hrow := hr.y
  have hlast := hr.x
  have hx' : u32 (s.terminal.x + 1) = s.terminal.x + 1 := u32_of_lt (by omega)
  have hy' : u32 (s.terminal.y + 1) = s.terminal.y + 1 := u32_of_lt (by omega)
  rw [putAdvance_eq, hx', hy']
  by_cases hfull : s.terminal.x + 1 = s.terminal.width
  · obtain ⟨hnil, hcount⟩ := RowLayout.put_of_full (r := r)
      (by rw [← hlast, hfull, hr.width]) ⟨c, s.terminal.fg, s.terminal.bg⟩
    rw [if_pos hfull]
    refine ⟨hr.width, ?_, ?_, fun i hi j hj => put_cells hs hr hy hc hi hj⟩
    · rw [moveTo_x, hnil]
      rfl
    · rw [moveTo_y, hcount]
      omega
  · obtain ⟨hnext, hcount⟩ := RowLayout.put_of_room (r := r)
      (by rwa [← hlast, ← hr.width]) ⟨c, s.terminal.fg, s.terminal.bg⟩
    rw [if_neg hfull]
    refine ⟨hr.width, ?_, ?_, fun i hi j hj => put_cells hs hr hy hc hi hj⟩
    · rw [moveTo_x, hnext, hlast, List.length_append, List.length_singleton]
    · rw [moveTo_y, hcount]
      exact hrow

/-- **The scroll shows the next row.** -/
theorem scroll_shows (hs : Sized w h s.terminal) (hr : ShowsFrom first r s.terminal)
    (hnil : r.last = []) (hheight : 0 < s.terminal.height)
    (hy : s.terminal.y = s.terminal.height) :
    ShowsFrom (first + 1) r (scroll s).terminal := by
  obtain ⟨hframe, hx, hlast⟩ := scroll_frame s
  have hrow := hr.y
  rw [sub32_of_le hheight] at hlast
  refine ⟨hframe.width.trans hr.width, hx.trans hr.x, by omega, ?_⟩
  intro i hi j hj
  rw [hframe.height] at hi
  rw [hframe.width] at hj
  rw [glyphAt_scroll hs.size ⟨(by decide : 32 < 2 ^ 8), hs.fg, hs.bg⟩
    hi hj]
  by_cases hbelow : i + 1 < s.terminal.height
  · rw [if_pos hbelow, Nat.add_assoc, Nat.add_comm 1]
    exact hr.cells (i + 1) hbelow j hj
  · rw [if_neg hbelow, RowLayout.cell?_of_last_nil hnil (by omega)]
    rfl

/-! ## One call -/

theorem Sized.of_sameFrame {t t' : Terminal} (hs : Sized w h t) (hf : SameFrame t t') :
    Sized w h t' where
  width := hf.width.trans hs.width
  height := hf.height.trans hs.height
  size := by
    rw [hf.size, hf.width, hf.height]
    exact hs.size
  size_lt := lt_of_eq_of_lt hf.size hs.size_lt
  fg := lt_of_eq_of_lt hf.fg hs.fg
  bg := lt_of_eq_of_lt hf.bg hs.bg

/-- What the character does before the scroll. -/
def printed (s : Screen) (c : ℕ) : Screen := if c = 10 then newline s else putAdvance s c

theorem printed_frame (s : Screen) (c : ℕ) :
    SameFrame s.terminal (printed s c).terminal := by
  unfold printed
  rw [putAdvance_eq]
  split_ifs <;> exact ⟨rfl, rfl, rfl, rfl, rfl⟩

/-- The cursor does not go up, and stays on a line or starts the one below the last. -/
theorem printed_cursor (hs : Sized w h s.terminal) (hx : s.terminal.x < s.terminal.width)
    (hy : s.terminal.y < s.terminal.height) (c : ℕ) :
    s.terminal.y ≤ (printed s c).terminal.y ∧
      ((printed s c).terminal.y < s.terminal.height ∨
        (printed s c).terminal.y = s.terminal.height ∧ (printed s c).terminal.x = 0) := by
  obtain ⟨-, hheight⟩ := hs.sides_lt hx (Nat.zero_lt_of_lt hy)
  have hy' : u32 (s.terminal.y + 1) = s.terminal.y + 1 := u32_of_lt (by omega)
  unfold printed newline
  rw [putAdvance_eq, hy']
  split_ifs
  · rw [moveTo_x, moveTo_y]
    omega
  · rw [moveTo_x, moveTo_y]
    omega
  · exact ⟨le_rfl, Or.inl hy⟩

theorem printed_shows (hs : Sized w h s.terminal) {l : Layout width}
    (hr : ShowsFrom first l.text s.terminal) (hy : s.terminal.y < s.terminal.height)
    (hfg : s.terminal.fg = l.fg) (hbg : s.terminal.bg = l.bg) {c : ℕ} (hc : c < 2 ^ 8) :
    ShowsFrom first (l.step (.char c)).text (printed s c).terminal := by
  unfold printed Layout.step
  dsimp only
  split_ifs
  · exact newline_shows hs hr hy
  · rw [← hfg, ← hbg]
    exact putAdvance_shows hs hr hy hc

/-- What `terminal_char` does to the terminal, for all but a backspace. -/
theorem terminalChar_terminal (s : Screen) {c : ℕ} (hc : c ≠ 8) :
    ∃ q : Screen, q.terminal = s.terminal ∧ (terminalChar s c).terminal =
      (if (printed q c).terminal.y ≥ (printed q c).terminal.height then scroll (printed q c)
        else printed q c).terminal := by
  have htyped : typed (erased s c) c = printed (erased s c) c := if_neg hc
  refine ⟨erased s c, erased_terminal s c, ?_⟩
  rw [terminalChar_eq, htyped, terminalCursor_terminal]

theorem step_char_colors (l : Layout width) (c : ℕ) :
    (l.step (.char c)).fg = l.fg ∧ (l.step (.char c)).bg = l.bg := by
  unfold Layout.step
  dsimp only
  split_ifs
  · exact ⟨rfl, rfl⟩
  · exact ⟨rfl, rfl⟩

/-- **One character keeps the terminal showing its layout.** -/
theorem terminalChar_shows {l : Layout width} (hl : Shows w h l s.terminal) {c : ℕ}
    (hc : c < 2 ^ 8) (hback : c ≠ 8) :
    Shows w h (l.step (.char c)) (terminalChar s c).terminal := by
  obtain ⟨q, hq, hchar⟩ := terminalChar_terminal s hback
  rw [← hq] at hl
  obtain ⟨hs, hr, hy, hfg, hbg⟩ := hl
  have hframe := printed_frame q c
  have hrow := hr.y
  have hr' := printed_shows hs hr hy hfg hbg hc
  have hs' := hs.of_sameFrame hframe
  have hrow' := hr'.y
  obtain ⟨hfg', hbg'⟩ := step_char_colors l c
  rw [hchar]
  obtain ⟨hle, hcursor⟩ := printed_cursor hs hr.x_lt hy c
  rcases hcursor with hy' | ⟨hy', hx'⟩
  -- no scroll: the window stays where it is
  · rw [if_neg (by rw [hframe.height]; omega)]
    have hfirst : (l.step (.char c)).text.rows.length - (printed q c).terminal.height =
        l.text.rows.length - q.terminal.height := by
      rw [hframe.height]
      omega
    refine ⟨hs', ?_, by rwa [hframe.height], ?_, ?_⟩
    · rwa [hfirst]
    · rw [hframe.fg, hfg, hfg']
    · rw [hframe.bg, hbg, hbg']
  -- scroll: the window moves down with the rows
  · rw [if_pos (by rw [hframe.height]; omega)]
    obtain ⟨hscroll, -, hlast⟩ := scroll_frame (printed q c)
    have hheight : 0 < (printed q c).terminal.height := by
      rw [hframe.height]
      omega
    have hnil : (l.step (.char c)).text.last = [] := by
      rw [← List.length_eq_zero_iff, ← hr'.x, hx']
    have hr'' := scroll_shows hs' hr' hnil hheight (hy'.trans hframe.height.symm)
    have hfirst : (l.step (.char c)).text.rows.length - (scroll (printed q c)).terminal.height =
        l.text.rows.length - q.terminal.height + 1 := by
      rw [hscroll.height, hframe.height]
      omega
    have hrow'' := hr''.y
    refine ⟨hs'.of_sameFrame hscroll, ?_, ?_, ?_, ?_⟩
    · rwa [hfirst]
    · rw [hscroll.height, hframe.height]
      omega
    · rw [hscroll.fg, hframe.fg, hfg, hfg']
    · rw [hscroll.bg, hframe.bg, hbg, hbg']

/-! ## Runs -/

theorem apply_shows {l : Layout width} (hl : Shows w h l s.terminal) {call : Call}
    (hcall : call.PrintsText) : Shows w h (l.step call) (call.apply s).terminal := by
  obtain ⟨⟨hwidth, hheight, hsize, hsize32, hfg16, hbg16⟩, ⟨hrw, hrx, hry, hcells⟩, hy, hfg,
    hbg⟩ := hl
  cases call with
  | char c =>
      have hc : (32 ≤ c ∧ c ≤ 126) ∨ c = 10 := hcall
      exact terminalChar_shows ⟨⟨hwidth, hheight, hsize, hsize32, hfg16, hbg16⟩,
        ⟨hrw, hrx, hry, hcells⟩, hy, hfg, hbg⟩ (by omega) (by omega)
  | setColor fg bg =>
      have hc : fg ≤ 7 ∧ bg ≤ 7 := hcall
      exact ⟨⟨hwidth, hheight, hsize, hsize32, Nat.lt_of_le_of_lt hc.1 (by decide),
        Nat.lt_of_le_of_lt hc.2 (by decide)⟩, ⟨hrw, hrx, hry, hcells⟩, hy, rfl, rfl⟩
  | setFg fg =>
      have hc : fg ≤ 7 := hcall
      exact ⟨⟨hwidth, hheight, hsize, hsize32, Nat.lt_of_le_of_lt hc (by decide), hbg16⟩,
        ⟨hrw, hrx, hry, hcells⟩, hy, rfl, hbg⟩
  | setBg bg =>
      have hc : bg ≤ 7 := hcall
      exact ⟨⟨hwidth, hheight, hsize, hsize32, hfg16, Nat.lt_of_le_of_lt hc (by decide)⟩,
        ⟨hrw, hrx, hry, hcells⟩, hy, hfg, rfl⟩

theorem runCalls_shows {l : Layout width} (hl : Shows w h l s.terminal) {calls : List Call}
    (hcalls : ∀ call ∈ calls, call.PrintsText) :
    Shows w h (calls.foldl Layout.step l) (runCalls s calls).terminal := by
  induction calls generalizing s l with
  | nil => exact hl
  | cons call calls ih =>
      exact ih (apply_shows hl (hcalls call List.mem_cons_self))
        fun call' hcall' => hcalls call' (List.mem_cons_of_mem _ hcall')

theorem terminalInit_shows (s : Screen) (heap : Memory ℕ) (hwidth : 0 < w / 8)
    (hheight : 0 < h / 16) (hsize : w / 8 * (h / 16) < 2 ^ 32) :
    Shows w h (Layout.fresh hwidth) (terminalInit s heap w h).terminal := by
  have hsize' : u32 (w / 8 * (h / 16)) = w / 8 * (h / 16) := u32_of_lt hsize
  refine ⟨⟨rfl, rfl, hsize', lt_of_eq_of_lt hsize' hsize, (by decide : 7 < 2 ^ 4),
    (by decide : 0 < 2 ^ 4)⟩, ⟨rfl, rfl, ?_, ?_⟩, hheight, rfl, rfl⟩
  · show 1 - h / 16 + 0 + 1 = 1
    omega
  · intro i hi j hj
    rw [glyphAt_terminalInit s heap hsize hi hj,
      RowLayout.cell?_of_last_nil rfl (by
        show 1 ≤ _
        omega)]
    rfl

end Simulation

/-- **The terminal shows the tail of the text**: the cursor is behind the last
glyph of the last row, and line `i` shows the `i`-th of the last rows that fit,
padded with spaces. -/
theorem terminal_shows_tail {w h : ℕ} (hwidth : 0 < w / 8) (hheight : 0 < h / 16)
    (hsize : w / 8 * (h / 16) < 2 ^ 32) (framebuffer : ℕ → BitVec 32) (font heap : Memory ℕ)
    (pitch : Fin (2 ^ 16)) (calls : List Call) (hcalls : ∀ call ∈ calls, call.PrintsText) :
    let t := (runCalls (terminalInit (Screen.boot framebuffer font pitch) heap w h)
      calls).terminal
    let r := (layout hwidth calls).text
    t.x = r.last.length ∧ t.y = min r.rows.length (h / 16) - 1 ∧
      ∀ i < h / 16, ∀ j < w / 8,
        (t.glyphAt i j).Matches (((r.window (h / 16)).getD i [])[j]?) := by
  have hinit := terminalInit_shows (Screen.boot framebuffer font pitch) heap hwidth hheight hsize
  obtain ⟨hs, hr, hy, -, -⟩ := runCalls_shows hinit hcalls
  intro t r
  have hrow := hr.y
  have hcells := hr.cells
  rw [hs.height] at hrow hy hcells
  rw [hs.width] at hcells
  refine ⟨hr.x, ?_, ?_⟩
  · show t.y = min r.rows.length (h / 16) - 1
    change _ - _ + t.y + 1 = r.rows.length at hrow
    change t.y < _ at hy
    change r.rows.length - _ + t.y + 1 = r.rows.length at hrow
    omega
  · intro i hi j hj
    rw [RowLayout.getD_window]
    exact hcells i hi j hj

theorem terminal_shows_tail_two_rows :
    let t := (runCalls (terminalInit (Screen.boot (fun _ => 0) (fun _ => 0) 8) (fun _ => 0) 16 32)
      [.char 97, .setFg 2, .char 98, .char 10, .char 99]).terminal
    let r := (layout (show 0 < 16 / 8 by decide)
      [.char 97, .setFg 2, .char 98, .char 10, .char 99]).text
    t.x = r.last.length ∧ t.y = min r.rows.length (32 / 16) - 1 ∧
      ∀ i < 32 / 16, ∀ j < 16 / 8,
        (t.glyphAt i j).Matches (((r.window (32 / 16)).getD i [])[j]?) :=
  terminal_shows_tail (by decide) (by decide) (by decide) _ _ _ 8
    [.char 97, .setFg 2, .char 98, .char 10, .char 99] (by decide)

end OsdevX64.Console
