import OsdevX64.Console.Glyph

/-!
# Taking a character back

The shell echoes a typed character with `terminal_char` and takes it back with a
backspace.  The two are inverse inside a row.  At the right edge `terminal_char`
goes on to the first column of the next row, and the backspace, in column 0, only
changes the row: **it goes up without going to the end of the row**, and blanks
the first cell of the line instead of the last (`backspace_undoes_iff`).

The states are those reached from `terminal_init` by any calls, for any size that
fits its parameters, a grid without columns included.
-/

namespace OsdevX64.Console

open ByteMemory MachineInt CLib

/-- The output of the character does not scroll the screen. -/
def NoScroll (s : Screen) (c : ℕ) : Prop :=
  (typed (erased s c) c).terminal.y < s.terminal.height

instance (s : Screen) (c : ℕ) : Decidable (NoScroll s c) := inferInstanceAs (Decidable (_ < _))

/-- `terminal_char(c)` followed by `terminal_char('\b')`. -/
def typeErase (s : Screen) (c : ℕ) : Screen := terminalChar (terminalChar s c) 8

/-- The cursor is back, its cell is blank in the current colours, and every other
cell of the buffer is as it was. -/
structure Undone (s s' : Screen) : Prop where
  x : s'.terminal.x = s.terminal.x
  y : s'.terminal.y = s.terminal.y
  blank : half s'.terminal.buffer.cell (s.terminal.index s.terminal.x s.terminal.y) =
    (Glyph.mk 32 s.terminal.fg s.terminal.bg).entry
  others : ∀ k, k ≠ s.terminal.index s.terminal.x s.terminal.y →
    half s'.terminal.buffer.cell k = half s.terminal.buffer.cell k

/-- The character is not put in the last column, or there is no other. -/
def StaysInRow (t : Terminal) : Prop := u32 (t.x + 1) ≠ t.width ∨ t.width = 1

/-! ## The two branches -/

/-- The terminal after a character that is put. -/
theorem putAdvance_terminal (s : Screen) (c : ℕ) :
    (putAdvance s c).terminal =
      { s.terminal with
        x := if u32 (s.terminal.x + 1) = s.terminal.width then 0 else u32 (s.terminal.x + 1)
        y := if u32 (s.terminal.x + 1) = s.terminal.width then u32 (s.terminal.y + 1)
          else s.terminal.y
        buffer := s.terminal.buffer.storeBytes
          (2 * s.terminal.index s.terminal.x s.terminal.y) 2
          (Glyph.mk c s.terminal.fg s.terminal.bg).entry } := by
  rw [putAdvance_eq]
  split_ifs <;> rfl

/-- The terminal after a backspace. -/
theorem backspace_terminal (s : Screen) :
    (backspace s).terminal =
      { s.terminal with
        x := s.terminal.stepBack.1
        y := s.terminal.stepBack.2
        buffer := s.terminal.buffer.storeBytes
          (2 * s.terminal.index s.terminal.stepBack.1 s.terminal.stepBack.2) 2
          (Glyph.mk 32 s.terminal.fg s.terminal.bg).entry } := rfl

/-- Without a scroll a character does what its branch does. -/
theorem terminalChar_of_noScroll {s : Screen} {c : ℕ} (h : NoScroll s c) :
    (terminalChar s c).terminal = (typed (erased s c) c).terminal := by
  have hheight : (typed (erased s c) c).terminal.height = s.terminal.height := by
    rw [(typed_frame (erased s c) c).height, erased_terminal]
  have hstays : ¬ (typed (erased s c) c).terminal.y ≥ (typed (erased s c) c).terminal.height := by
    rw [hheight]
    exact Nat.not_le.mpr h
  rw [terminalChar_eq, terminalCursor_terminal, if_neg hstays]

/-! ## Reachable states -/

/-- What every state satisfies, whatever the size of the grid: the cursor is in a
column if there is one, and in a row if there is one. -/
structure Grid (w h : ℕ) (t : Terminal) : Prop where
  width : t.width = w / 8
  height : t.height = h / 16
  column : t.x < t.width ∨ t.width = 0 ∧ t.x < 2 ^ 32
  row : 0 < t.height → t.y < t.height

section Reachable

variable {w h : ℕ} {s : Screen}

theorem Grid.of_sameFrame {t t' : Terminal} (hg : Grid w h t) (hf : SameFrame t t')
    (hcolumn : t'.x < t.width ∨ t.width = 0 ∧ t'.x < 2 ^ 32)
    (hrow : 0 < t.height → t'.y < t.height) : Grid w h t' where
  width := hf.width.trans hg.width
  height := hf.height.trans hg.height
  column := by rwa [hf.width]
  row := by rwa [hf.height]

/-- No branch leaves the columns. -/
theorem typed_column (hg : Grid w h s.terminal) (c : ℕ) :
    (typed s c).terminal.x < s.terminal.width ∨
      s.terminal.width = 0 ∧ (typed s c).terminal.x < 2 ^ 32 := by
  have hcolumn := hg.column
  have hwrap : u32 (s.terminal.x + 1) < 2 ^ 32 := Nat.mod_lt _ (by omega)
  have hle : u32 (s.terminal.x + 1) ≤ s.terminal.x + 1 := Nat.mod_le _ _
  unfold typed
  split_ifs with hback hline
  · rw [backspace_terminal, Terminal.stepBack_eq]
    dsimp only
    omega
  · rw [newline, moveTo_x]
    omega
  · rw [putAdvance_terminal]
    dsimp only
    split_ifs with hedge
    · omega
    · omega

/-- **One character keeps the cursor on the grid.** -/
theorem Grid.terminalChar (hg : Grid w h s.terminal) (c : ℕ) :
    Grid w h (terminalChar s c).terminal := by
  refine hg.of_sameFrame (terminalChar_frame s c) ?_ ?_
  · have hcolumn := typed_column (s := erased s c) (by rwa [erased_terminal]) c
    rw [erased_terminal] at hcolumn
    rw [terminalChar_eq, terminalCursor_terminal]
    split_ifs
    · rw [(scroll_frame _).2.1]
      exact hcolumn
    · exact hcolumn
  · intro hpos
    have hheight : (typed (erased s c) c).terminal.height = s.terminal.height := by
      rw [(typed_frame (erased s c) c).height, erased_terminal]
    rw [terminalChar_eq, terminalCursor_terminal, hheight]
    split_ifs with hbelow
    -- the scroll puts the cursor in the last row
    · rw [(scroll_frame _).2.2, hheight, sub32_of_le hpos]
      exact Nat.sub_one_lt hpos.ne'
    · exact Nat.lt_of_not_le hbelow

theorem Grid.runCalls (hg : Grid w h s.terminal) (calls : List Call) :
    Grid w h (runCalls s calls).terminal := by
  unfold Console.runCalls
  refine List.foldlRecOn (motive := fun q : Screen => Grid w h q.terminal) _ _ hg ?_
  intro q hq call _
  cases call with
  | char c => exact hq.terminalChar c
  | setColor fg bg => exact ⟨hq.width, hq.height, hq.column, hq.row⟩
  | setFg fg => exact ⟨hq.width, hq.height, hq.column, hq.row⟩
  | setBg bg => exact ⟨hq.width, hq.height, hq.column, hq.row⟩

theorem grid_terminalInit (s : Screen) (heap : Memory ℕ) (w h : ℕ) :
    Grid w h (terminalInit s heap w h).terminal where
  width := rfl
  height := rfl
  column := by
    change 0 < w / 8 ∨ w / 8 = 0 ∧ 0 < 2 ^ 32
    omega
  row := id

/-! ## One character, taken back -/

/-- The two calls without their cursors: nothing scrolls on the way back either. -/
theorem typeErase_terminal {c : ℕ} (hback : c ≠ 8) (hline : c ≠ 10) (hscroll : NoScroll s c) :
    (terminalChar s c).terminal = (putAdvance (erased s c) c).terminal ∧
      (typeErase s c).terminal = (backspace (erased (terminalChar s c) 8)).terminal := by
  have htyped : typed (erased s c) c = putAdvance (erased s c) c :=
    (if_neg hback).trans (if_neg hline)
  have hfirst := terminalChar_of_noScroll hscroll
  refine ⟨by rw [hfirst, htyped], terminalChar_of_noScroll ?_⟩
  have hup : (backspace (erased (terminalChar s c) 8)).terminal.y ≤
      (terminalChar s c).terminal.y := by
    rw [backspace_terminal, erased_terminal, Terminal.stepBack_eq]
    dsimp only
    split_ifs
    · exact Nat.sub_le _ _
    · exact Nat.le_refl _
  have hy : (terminalChar s c).terminal.y < s.terminal.height := by
    rw [hfirst]
    exact hscroll
  change (backspace (erased (terminalChar s c) 8)).terminal.y < _
  rw [(terminalChar_frame s c).height]
  exact hup.trans_lt hy

/-- Where the cursor goes and comes back to. -/
theorem typeErase_cursor {c : ℕ} (hback : c ≠ 8) (hline : c ≠ 10) (hscroll : NoScroll s c) :
    let t := (putAdvance (erased s c) c).terminal
    (typeErase s c).terminal.x = t.x - 1 ∧
      (typeErase s c).terminal.y = if t.x = 0 then t.y - 1 else t.y := by
  obtain ⟨hforth, hcome⟩ := typeErase_terminal hback hline hscroll
  rw [hcome, backspace_terminal, erased_terminal, hforth, Terminal.stepBack_eq]
  exact ⟨rfl, rfl⟩

/-- **The cursor comes back exactly if it stays in its row.** -/
theorem typeErase_returns_iff (hw : w < 2 ^ 32) (hh : h < 2 ^ 32) (hg : Grid w h s.terminal)
    {c : ℕ} (hback : c ≠ 8) (hline : c ≠ 10) (hscroll : NoScroll s c) :
    ((typeErase s c).terminal.x = s.terminal.x ∧ (typeErase s c).terminal.y = s.terminal.y) ↔
      StaysInRow s.terminal := by
  obtain ⟨hx, hy⟩ := typeErase_cursor hback hline hscroll
  rw [hx, hy, StaysInRow, putAdvance_terminal, erased_terminal]
  dsimp only
  have hwidth := hg.width
  have hheight := hg.height
  have hcolumn := hg.column
  have hrow := hg.row
  have hpos : 0 < s.terminal.height := Nat.zero_lt_of_lt hscroll
  have hynext : u32 (s.terminal.y + 1) = s.terminal.y + 1 := u32_of_lt (by omega)
  by_cases hedge : u32 (s.terminal.x + 1) = s.terminal.width
  · rw [if_pos hedge, if_pos rfl, if_pos hedge, hynext, Nat.add_sub_cancel]
    constructor
    · rintro ⟨hzero, -⟩
      have hone : u32 (s.terminal.x + 1) = 1 := by rw [← hzero]; rfl
      exact Or.inr (hedge.symm.trans hone)
    · rintro (hnot | hone)
      · exact absurd hedge hnot
      -- the only column is also the first
      · exact ⟨by omega, rfl⟩
  · have hlt : s.terminal.x + 1 < 2 ^ 32 := by
      unfold u32 at hedge
      omega
    rw [u32_of_lt hlt] at hedge
    rw [u32_of_lt hlt, if_neg hedge, if_neg (Nat.succ_ne_zero _), if_neg hedge]
    exact iff_of_true ⟨Nat.add_sub_cancel _ _, rfl⟩ (Or.inl hedge)

/-- Where the cursor comes back, its cell is the only one that was written. -/
theorem typeErase_undone {c : ℕ} (hback : c ≠ 8) (hline : c ≠ 10) (hscroll : NoScroll s c)
    (hx : (typeErase s c).terminal.x = s.terminal.x)
    (hy : (typeErase s c).terminal.y = s.terminal.y) : Undone s (typeErase s c) := by
  obtain ⟨hforth, hcome⟩ := typeErase_terminal hback hline hscroll
  have hcells : ∀ k, half (typeErase s c).terminal.buffer.cell k =
      if k = s.terminal.index s.terminal.x s.terminal.y then
        (Glyph.mk 32 s.terminal.fg s.terminal.bg).entry else half s.terminal.buffer.cell k := by
    intro k
    have hentry : ∀ g : Glyph, g.entry % 2 ^ 16 = g.entry := fun g =>
      Nat.mod_eq_of_lt g.entry_lt
    rw [hcome, backspace_terminal] at hx hy
    rw [hcome, backspace_terminal, erased_terminal, hforth]
    rw [erased_terminal, hforth] at hx hy
    dsimp only at hx hy ⊢
    rw [Tracked.cell_storeBytes, half_storeLE, hx, hy, hentry, putAdvance_terminal,
      erased_terminal]
    dsimp only
    rw [Tracked.cell_storeBytes, half_storeLE]
    change (if k = s.terminal.index s.terminal.x s.terminal.y then _ else _) = _
    by_cases hk : k = s.terminal.index s.terminal.x s.terminal.y
    · rw [if_pos hk, if_pos hk]
    · rw [if_neg hk, if_neg hk, if_neg hk]
  refine ⟨hx, hy, (hcells _).trans (if_pos rfl), fun k hk => (hcells k).trans (if_neg hk)⟩

end Reachable

/-- **A backspace takes a character back exactly if the character did not wrap** to
the next row, in every reachable state. -/
theorem backspace_undoes_iff {w h : ℕ} (hw : w < 2 ^ 32) (hh : h < 2 ^ 32)
    (framebuffer : ℕ → BitVec 32) (font : Memory ℕ) (pitch : Fin (2 ^ 16)) (heap : Memory ℕ)
    (calls : List Call) {c : ℕ} (hback : c ≠ 8) (hline : c ≠ 10) :
    let s := runCalls (terminalInit (Screen.boot framebuffer font pitch) heap w h) calls
    NoScroll s c → (Undone s (typeErase s c) ↔ StaysInRow s.terminal) := by
  intro s hscroll
  have hg : Grid w h s.terminal := (grid_terminalInit _ heap w h).runCalls calls
  have hiff := typeErase_returns_iff hw hh hg hback hline hscroll
  constructor
  · intro hundone
    exact hiff.mp ⟨hundone.x, hundone.y⟩
  · intro hstays
    obtain ⟨hx, hy⟩ := hiff.mpr hstays
    exact typeErase_undone hback hline hscroll hx hy

/-- A letter in the first of two columns is taken back. -/
theorem backspace_undoes_first :
    let s := terminalInit (Screen.boot (fun _ => 0) (fun _ => 0) 16) (fun _ => 0) 16 32
    Undone s (typeErase s 65) :=
  (backspace_undoes_iff (by decide) (by decide) (fun _ => 0) (fun _ => 0) 16 (fun _ => 0) []
    (by decide) (by decide) (by decide +kernel : NoScroll _ 65)).mpr
    (Or.inl (by decide +kernel))

/-- **A letter in the last column stays**: the backspace erases the first letter of
the line and leaves the cursor there. -/
theorem last_column_stays :
    let s := runCalls (terminalInit (Screen.boot (fun _ => 0) (fun _ => 0) 16) (fun _ => 0) 16 32)
      [.char 65]
    let s' := typeErase s 66
    NoScroll s 66 ∧ s.terminal.glyphAt 0 0 = ⟨65, 7, 0⟩ ∧
      (s.terminal.x, s.terminal.y) = (1, 0) ∧ (s'.terminal.x, s'.terminal.y) = (0, 0) ∧
      s'.terminal.glyphAt 0 0 = ⟨32, 7, 0⟩ ∧ s'.terminal.glyphAt 0 1 = ⟨66, 7, 0⟩ ∧
      ¬ Undone s s' := by
  intro s s'
  have hcursor : (s.terminal.x, s.terminal.y) = (1, 0) := by decide +kernel
  have hback : (s'.terminal.x, s'.terminal.y) = (0, 0) := by decide +kernel
  refine ⟨(by decide +kernel : NoScroll s 66), by decide +kernel, hcursor, hback,
    by decide +kernel, by decide +kernel, fun hundone => ?_⟩
  have hx := hundone.x
  rw [(Prod.mk.inj hcursor).1, (Prod.mk.inj hback).1] at hx
  exact absurd hx (by decide)

end OsdevX64.Console
