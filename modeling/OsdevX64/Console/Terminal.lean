import OsdevX64.Console.Colors
import OsdevX64.Console.Graphics

/-!
# The text terminal

`terminal.c`: a cursor, two current colours and a buffer of 16-bit cells, drawn
into the framebuffer cell by cell.  `terminalChar` is the function the kernel
prints through; the rest of the file is what it calls.

The buffer is a C object of `2 * Size` bytes, since the scroll moves it with a
byte-wise `memmove`.  Besides the state the source has, a `Screen` records the
arguments of every `terminal_put` and every index into the colour table.
-/

namespace OsdevX64.Console

open ByteMemory MachineInt CLib

/-- The `Terminal` state of `terminal.c`. -/
structure Terminal where
  x : ℕ
  y : ℕ
  bg : ℕ
  fg : ℕ
  width : ℕ
  height : ℕ
  size : ℕ
  buffer : Tracked ℕ Byte

/-- The console: terminal, framebuffer and serial port. -/
structure Screen where
  terminal : Terminal
  graphics : Graphics
  /-- Bytes sent to the serial port, the latest first. -/
  serial : List ℕ
  /-- Coordinates `(x, y)` given to `terminal_put`, the latest first. -/
  puts : List (ℕ × ℕ)
  /-- Indices into the colour table, the latest first. -/
  lookups : List ℕ

/-- Set `terminal.X` and `terminal.Y`. -/
def Screen.moveTo (s : Screen) (x y : ℕ) : Screen :=
  { s with terminal := { s.terminal with x := x, y := y } }

/-- Replace the contents of `terminal.Buffer`. -/
def Screen.setBuffer (s : Screen) (buffer : Tracked ℕ Byte) : Screen :=
  { s with terminal := { s.terminal with buffer := buffer } }

/-! ## Cells and colours -/

/-- `vga_entry`. -/
def vgaEntry (c color : ℕ) : ℕ := c ||| u32 (color <<< 8)

/-- `vga_color`. -/
def vgaColor (fg bg : ℕ) : ℕ := fg ||| u32 (bg <<< 4)

/-- `color_lookup`. -/
def colorLookup (s : Screen) (c : ℕ) : BitVec 32 × Screen :=
  (gfxColors.getD c 0, { s with lookups := c :: s.lookups })

/-! ## Colour settings -/

/-- `terminal_set_color`. -/
def terminalSetColor (s : Screen) (fg bg : ℕ) : Screen :=
  { s with terminal := { s.terminal with fg := fg, bg := bg } }

/-- `terminal_set_fg`. -/
def terminalSetFg (s : Screen) (fg : ℕ) : Screen :=
  { s with terminal := { s.terminal with fg := fg } }

/-- `terminal_set_bg`. -/
def terminalSetBg (s : Screen) (bg : ℕ) : Screen :=
  { s with terminal := { s.terminal with bg := bg } }

/-! ## Characters -/

/-- `terminal_init`; `heap` is what the block from `malloc` holds. -/
def terminalInit (s : Screen) (heap : Memory ℕ) (w h : ℕ) : Screen :=
  let size := u32 (w / 8 * (h / 16))
  let blank := u16 (vgaEntry 32 (vgaColor terminalWhite terminalBlack))
  { s with
    terminal :=
      { x := 0
        y := 0
        bg := terminalBlack
        fg := terminalWhite
        width := w / 8
        height := h / 16
        size := size
        buffer := memset16 (Tracked.fresh heap) 0 blank size } }

/-- The index `y * terminal.Width + x`. -/
def Terminal.index (t : Terminal) (x y : ℕ) : ℕ := u32 (u32 (y * t.width) + x)

/-- `terminal_put`. -/
def terminalPut (s : Screen) (c fg bg x y : ℕ) : Screen :=
  let t := s.terminal
  let buffer := t.buffer.storeBytes (2 * t.index x y) 2 (u16 (vgaEntry c (vgaColor fg bg)))
  let s := { s.setBuffer buffer with puts := (x, y) :: s.puts }
  let (fgColor, s) := colorLookup s fg
  let (bgColor, s) := colorLookup s bg
  { s with graphics := graphicsChar s.graphics (u32 (8 * x)) (u32 (16 * y)) c fgColor bgColor }

/-- `terminal_cursor`. -/
def terminalCursor (s : Screen) (color : ℕ) : Screen :=
  let t := s.terminal
  -- outside the grid there is no cell to mark
  if t.x = t.width then s
  else if t.y = t.height then s
  else
    let (rgb, s) := colorLookup s color
    { s with graphics := graphicsRect s.graphics (u32 (t.x * 8)) (u32 (t.y * 16)) 2 16 rgb }

/-- `serial_tx`. -/
def serialTx (s : Screen) (c : ℕ) : Screen := { s with serial := u8 c :: s.serial }

/-- Where a backspace moves the cursor. -/
def Terminal.stepBack (t : Terminal) : ℕ × ℕ :=
  -- in column 0 the row changes and the column stays
  if t.x = 0 then (if t.y > 0 then (t.x, sub32 t.y 1) else (t.x, t.y))
  else (sub32 t.x 1, t.y)

/-- The backspace branch of `terminal_char`. -/
def backspace (s : Screen) : Screen :=
  let p := s.terminal.stepBack
  terminalPut (s.moveTo p.1 p.2) 32 s.terminal.fg s.terminal.bg p.1 p.2

/-- The newline branch of `terminal_char`. -/
def newline (s : Screen) : Screen := s.moveTo 0 (u32 (s.terminal.y + 1))

/-- The remaining branch of `terminal_char`: put the character and advance,
wrapping at the right edge. -/
def putAdvance (s : Screen) (c : ℕ) : Screen :=
  let put := terminalPut s c s.terminal.fg s.terminal.bg s.terminal.x s.terminal.y
  let s := put.moveTo (u32 (s.terminal.x + 1)) s.terminal.y
  if s.terminal.x = s.terminal.width then s.moveTo 0 (u32 (s.terminal.y + 1)) else s

/-- One step of the redraw loop: read a cell, take it apart and put it. -/
def redrawCell (s : Screen) (x y : ℕ) : Screen :=
  let (v, buffer) := s.terminal.buffer.loadBytes (2 * s.terminal.index x y) 2
  terminalPut (s.setBuffer buffer) (v &&& 0xFF) ((v >>> 8) &&& 0x0F) (v >>> 12) x y

/-- The redraw loops. -/
def redraw (s : Screen) : Screen :=
  (List.range s.terminal.height).foldl
    (fun s y => (List.range s.terminal.width).foldl (fun s x => redrawCell s x y) s) s

/-- The buffer part of the scroll: move all rows up and blank the last one. -/
def scrollBuffer (t : Terminal) : Tracked ℕ Byte :=
  let moved := memmove t.buffer 0 (2 * t.width) (2 * sub32 t.size t.width)
  memset16 moved (2 * (t.size - t.width)) (u16 (vgaEntry 32 (vgaColor t.fg t.bg))) t.width

/-- The scroll of `terminal_char`. -/
def scroll (s : Screen) : Screen :=
  let s := redraw (s.setBuffer (scrollBuffer s.terminal))
  s.moveTo s.terminal.x (sub32 s.terminal.height 1)

/-- `terminal_char`; `'\b'` is 8 and `'\n'` is 10. -/
def terminalChar (s : Screen) (c : ℕ) : Screen :=
  let s := terminalCursor s s.terminal.bg
  let s := serialTx s c
  let s := if c = 8 then backspace s else if c = 10 then newline s else putAdvance s c
  let s := if s.terminal.y ≥ s.terminal.height then scroll s else s
  terminalCursor s s.terminal.fg

/-! ## Runs -/

/-- A call from the rest of the kernel. -/
inductive Call
  | char (c : ℕ)
  | setColor (fg bg : ℕ)
  | setFg (fg : ℕ)
  | setBg (bg : ℕ)
  deriving DecidableEq, Repr

/-- One call. -/
def Call.apply (s : Screen) : Call → Screen
  | .char c => terminalChar s c
  | .setColor fg bg => terminalSetColor s fg bg
  | .setFg fg => terminalSetFg s fg
  | .setBg bg => terminalSetBg s bg

/-- A sequence of calls. -/
def runCalls (s : Screen) (calls : List Call) : Screen := calls.foldl Call.apply s

/-- The console before `terminal_init`: nothing drawn or sent yet. -/
def Screen.boot (framebuffer : ℕ → BitVec 32) (font : Memory ℕ) (pitch : Fin (2 ^ 16)) :
    Screen where
  terminal :=
    { x := 0, y := 0, bg := 0, fg := 0, width := 0, height := 0, size := 0,
      buffer := Tracked.fresh fun _ => 0 }
  graphics :=
    { pixels := Tracked.fresh framebuffer, pitch := pitch, pitch_lt := pitch.isLt,
      font := Tracked.fresh font }
  serial := []
  puts := []
  lookups := []

/-! ## What the parts leave alone -/

section Setters

variable (s : Screen) (x y : ℕ) (buffer : Tracked ℕ Byte)

@[simp] theorem moveTo_x : (s.moveTo x y).terminal.x = x := rfl
@[simp] theorem moveTo_y : (s.moveTo x y).terminal.y = y := rfl
@[simp] theorem moveTo_fg : (s.moveTo x y).terminal.fg = s.terminal.fg := rfl
@[simp] theorem moveTo_bg : (s.moveTo x y).terminal.bg = s.terminal.bg := rfl
@[simp] theorem moveTo_width : (s.moveTo x y).terminal.width = s.terminal.width := rfl
@[simp] theorem moveTo_height : (s.moveTo x y).terminal.height = s.terminal.height := rfl
@[simp] theorem moveTo_size : (s.moveTo x y).terminal.size = s.terminal.size := rfl
@[simp] theorem moveTo_buffer : (s.moveTo x y).terminal.buffer = s.terminal.buffer := rfl

@[simp] theorem setBuffer_x : (s.setBuffer buffer).terminal.x = s.terminal.x := rfl
@[simp] theorem setBuffer_y : (s.setBuffer buffer).terminal.y = s.terminal.y := rfl
@[simp] theorem setBuffer_width : (s.setBuffer buffer).terminal.width = s.terminal.width := rfl
@[simp] theorem setBuffer_height :
    (s.setBuffer buffer).terminal.height = s.terminal.height := rfl
@[simp] theorem setBuffer_buffer : (s.setBuffer buffer).terminal.buffer = buffer := rfl

end Setters

/-- A put changes nothing of the terminal but one cell of its buffer. -/
theorem terminalPut_terminal (s : Screen) (c fg bg x y : ℕ) :
    (terminalPut s c fg bg x y).terminal =
      { s.terminal with
        buffer := s.terminal.buffer.storeBytes (2 * s.terminal.index x y) 2
          (u16 (vgaEntry c (vgaColor fg bg))) } := rfl

@[simp] theorem terminalPut_x (s : Screen) (c fg bg x y : ℕ) :
    (terminalPut s c fg bg x y).terminal.x = s.terminal.x := rfl

@[simp] theorem terminalPut_y (s : Screen) (c fg bg x y : ℕ) :
    (terminalPut s c fg bg x y).terminal.y = s.terminal.y := rfl

@[simp] theorem terminalPut_width (s : Screen) (c fg bg x y : ℕ) :
    (terminalPut s c fg bg x y).terminal.width = s.terminal.width := rfl

@[simp] theorem terminalPut_height (s : Screen) (c fg bg x y : ℕ) :
    (terminalPut s c fg bg x y).terminal.height = s.terminal.height := rfl

@[simp] theorem terminalCursor_terminal (s : Screen) (color : ℕ) :
    (terminalCursor s color).terminal = s.terminal := by
  unfold terminalCursor
  dsimp only
  split_ifs <;> rfl

@[simp] theorem terminalCursor_puts (s : Screen) (color : ℕ) :
    (terminalCursor s color).puts = s.puts := by
  unfold terminalCursor
  dsimp only
  split_ifs <;> rfl

@[simp] theorem serialTx_terminal (s : Screen) (c : ℕ) :
    (serialTx s c).terminal = s.terminal := rfl

/-- A backspace moves one cell to the left, or up in column 0. -/
theorem Terminal.stepBack_eq (t : Terminal) :
    t.stepBack = (t.x - 1, if t.x = 0 then t.y - 1 else t.y) := by
  unfold Terminal.stepBack
  split_ifs with hx0 hy0
  · rw [sub32_of_le hy0, hx0]
  · rw [hx0, show t.y = 0 by omega]
  · rw [sub32_of_le (Nat.pos_of_ne_zero hx0)]

/-- A backspace stays on the grid. -/
theorem Terminal.stepBack_lt {t : Terminal} (hx : t.x < t.width) (hy : t.y < t.height) :
    t.stepBack.1 < t.width ∧ t.stepBack.2 < t.height := by
  rw [stepBack_eq]
  refine ⟨(Nat.sub_le _ 1).trans_lt hx, ?_⟩
  dsimp only
  split_ifs
  · exact (Nat.sub_le _ 1).trans_lt hy
  · exact hy

/-- A backspace stays on its cell in the first cell only. -/
theorem Terminal.stepBack_stays_iff (t : Terminal) :
    t.y = t.stepBack.2 ∧ t.x = t.stepBack.1 ↔ t.x = 0 ∧ t.y = 0 := by
  rw [stepBack_eq]
  dsimp only
  split_ifs <;> omega

/-- Put and advance, with the wrap resolved. -/
theorem putAdvance_eq (s : Screen) (c : ℕ) :
    putAdvance s c =
      if u32 (s.terminal.x + 1) = s.terminal.width then
        (terminalPut s c s.terminal.fg s.terminal.bg s.terminal.x s.terminal.y).moveTo 0
          (u32 (s.terminal.y + 1))
      else
        (terminalPut s c s.terminal.fg s.terminal.bg s.terminal.x s.terminal.y).moveTo
          (u32 (s.terminal.x + 1)) s.terminal.y := rfl

end OsdevX64.Console
