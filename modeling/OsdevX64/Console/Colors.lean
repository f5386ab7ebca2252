import Mathlib.Data.Nat.Notation

/-!
# Colours

The colour numbers of `terminal.h` that the kernel and its modules use, and the
framebuffer colours of `graphics.h` in the same order.
-/

namespace OsdevX64.Console

/-- `TERMINAL_BLACK`. -/
def terminalBlack : ℕ := 0

/-- `TERMINAL_RED`. -/
def terminalRed : ℕ := 1

/-- `TERMINAL_GREEN`. -/
def terminalGreen : ℕ := 2

/-- `TERMINAL_WHITE`. -/
def terminalWhite : ℕ := 7

/-- `GFX_BLACK` to `GFX_WHITE`. -/
def gfxColors : List (BitVec 32) :=
  [0xFF3B4252, 0xFFBF616A, 0xFFA3BE8C, 0xFFEBCA8B,
    0xFF81A1C1, 0xFFB48EAD, 0xFF88C0D0, 0xFFE5E9F0]

end OsdevX64.Console
