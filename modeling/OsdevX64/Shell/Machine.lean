import OsdevX64.Console.Colors
import OsdevX64.Kernel.Signals
import OsdevX64.Lib.MachineInt
import OsdevX64.Lib.Tracked

/-!
# The shell module

`modules/shell/main.c`: a line buffer with a cursor, edited by key events, and a
tokeniser that splits the line in place when Enter is pressed.

Pointers into `shell.Buffer` are offsets.  The buffer and the local array `argv`
are tracked and do not check their bounds; `argv` is part of the state because
its slots hold whatever an earlier call left there.  What the shell asks the
kernel to do is recorded in `output`.

The loop of `shell_command` runs until it reads a NUL.  Here it has a fuel and
is `none` when that runs out, which `shell_enter` never lets happen.
-/

namespace OsdevX64.ShellModule

open ByteMemory MachineInt Console Kernel

/-- An argument of `printf`. -/
inductive Arg
  | int (n : ℕ)
  /-- A string, by its offset in `shell.Buffer`. -/
  | str (p : ℕ)
  deriving DecidableEq, Repr

/-- A call of a kernel function. -/
inductive Output
  | terminalSetColor (fg bg : ℕ)
  | printf (format : String) (args : List Arg)
  deriving DecidableEq, Repr

/-- The `Shell` state. -/
structure Shell where
  cursor : ℕ
  line : ℕ
  buffer : Tracked ℕ Byte
  argv : Tracked ℕ ℕ
  /-- Calls of the kernel, the latest first. -/
  output : List Output

/-- `SHELL_BUFFER_SIZE`. -/
def shellBufferSize : ℕ := 256

/-- The length of `argv`. -/
def argvSize : ℕ := 16

/-- Call the kernel. -/
def Shell.call (s : Shell) (o : Output) : Shell := { s with output := o :: s.output }

/-- Set `shell.Cursor`. -/
def Shell.moveTo (s : Shell) (cursor : ℕ) : Shell := { s with cursor := cursor }

/-- Store a byte in `shell.Buffer`. -/
def Shell.store (s : Shell) (p : ℕ) (b : Byte) : Shell := { s with buffer := s.buffer.write p b }

/-- `isprint`, on a signed `int`. -/
def isprint (c : ℤ) : Bool := 32 ≤ c && c ≤ 126

/-! ## The tokeniser -/

/-- The locals of `shell_command`, with the buffer it works on. -/
structure Tokens where
  buffer : Tracked ℕ Byte
  argv : Tracked ℕ ℕ
  argc : ℕ
  i : ℕ

/-- The body of the loop for a byte other than NUL. -/
def tokenStep (t : Tokens) (p : ℕ) (b : Byte) : Tokens :=
  if b = 32 then { t with buffer := t.buffer.write p 0, i := 1 }
  -- the start of a word; `argc` is not compared with the 16 slots
  else if t.i ≠ 0 then { t with argv := t.argv.write t.argc p, argc := u32 (t.argc + 1), i := 0 }
  else t

/-- The loop `while(*p)`. -/
def tokenise : ℕ → Tokens → ℕ → Option Tokens
  | 0, _, _ => none
  | fuel + 1, t, p =>
      let (b, buffer) := t.buffer.read p
      let t := { t with buffer := buffer }
      if b = 0 then some t else tokenise fuel (tokenStep t p b) (p + 1)

/-- The loop that prints the words. -/
def printWords (s : Shell) (i : ℕ) : ℕ → Shell
  | 0 => s
  | left + 1 =>
      let (p, argv) := s.argv.read i
      let s := { s with argv := argv }
      printWords (s.call (.printf "%d. %s\n" [.int i, .str p])) (i + 1) left

/-- `shell_command` on the line at the start of the buffer. -/
def shellCommand (fuel : ℕ) (s : Shell) : Option Shell := do
  let t ← tokenise fuel { buffer := s.buffer, argv := s.argv, argc := 0, i := 1 } 0
  let s := { s with buffer := t.buffer, argv := t.argv }
  let s := s.call (.printf "argc = %d\n" [.int t.argc])
  return printWords s 0 t.argc

/-! ## The line editor -/

/-- `shell_prompt`. -/
def shellPrompt (s : Shell) : Shell :=
  let s := s.moveTo 0
  let s := s.call (.terminalSetColor terminalGreen terminalBlack)
  let s := s.call (.printf "\nImaginaryOS>" [])
  let s := s.call (.terminalSetColor terminalWhite terminalBlack)
  s.call (.printf " " [])

/-- `shell_enter`.  The NUL that Enter stored stops the loop at the cursor at
the latest. -/
def shellEnter (s : Shell) : Option Shell := do
  let s := s.call (.printf "\n" [])
  let s ← shellCommand (s.cursor + 1) s
  return shellPrompt s

/-- The printable branch of `event_key`. -/
def typeChar (s : Shell) (ascii : BitVec 32) : Shell :=
  let s := (s.store s.cursor (ascii.setWidth 8)).moveTo (u32 (s.cursor + 1))
  s.call (.printf "%c" [.int ascii.toNat])

/-- The backspace branch of `event_key`. -/
def eraseChar (s : Shell) : Shell :=
  let s := s.moveTo (sub32 s.cursor 1)
  (s.store s.cursor 0).call (.printf "\x08" [])

/-- `event_key`; `'\n'` is 10 and `'\b'` is 8. -/
def eventKey (s : Shell) (e : ModuleKeyEvent) : Option Shell :=
  if e.released ≠ 0 then some s
  else if isprint e.codepoint.toInt then some (typeChar s e.codepoint)
  -- the NUL goes to `cursor`, also where that is behind the buffer
  else if e.codepoint = 10 then shellEnter (s.store s.cursor 0)
  else if e.codepoint = 8 ∧ s.cursor > 0 then some (eraseChar s)
  else some s

/-- `shell_init`. -/
def shellInit (s : Shell) : Shell :=
  let s := { s with cursor := 0, line := 0 }
  let s := s.call (.terminalSetColor terminalRed terminalBlack)
  let s := s.call (.printf
    ("\n\nImaginaryOS made by Anton and Tim\n\n" ++
      "###########    ###########\n" ++
      "###########    ###########\n" ++
      "###                    ###\n" ++
      "###                    ###\n" ++
      "###                    ###\n" ++
      "\n" ++
      "###                    ###\n" ++
      "###                    ###\n" ++
      "###                    ###\n" ++
      "###########    ###########\n" ++
      "###########    ###########\n\n") [])
  shellPrompt s

/-! ## Signals -/

/-- `signal_handler`. -/
def signalHandler (s : Shell) : Signal → Option Shell
  | .init => some (shellInit s)
  | .keyboard e => eventKey s e
  | .timer => some s

/-- The module as it is loaded: `shell` is zero, the stack is arbitrary. -/
def Shell.boot (stack : ℕ → ℕ) : Shell where
  cursor := 0
  line := 0
  buffer := Tracked.fresh fun _ => 0
  argv := Tracked.fresh stack
  output := []

/-- The shell after INIT and the given key events. -/
def run (stack : ℕ → ℕ) (events : List ModuleKeyEvent) : Option Shell :=
  ((.init :: events.map .keyboard) : List Signal).foldlM signalHandler (Shell.boot stack)

/-! ## What the parts leave alone -/

section Fields

variable (s : Shell) (o : Output) (cursor p : ℕ) (b : Byte)

@[simp] theorem call_cursor : (s.call o).cursor = s.cursor := rfl
@[simp] theorem call_buffer : (s.call o).buffer = s.buffer := rfl
@[simp] theorem call_argv : (s.call o).argv = s.argv := rfl
@[simp] theorem moveTo_cursor : (s.moveTo cursor).cursor = cursor := rfl
@[simp] theorem moveTo_buffer : (s.moveTo cursor).buffer = s.buffer := rfl
@[simp] theorem moveTo_argv : (s.moveTo cursor).argv = s.argv := rfl
@[simp] theorem store_cursor : (s.store p b).cursor = s.cursor := rfl
@[simp] theorem store_buffer : (s.store p b).buffer = s.buffer.write p b := rfl
@[simp] theorem store_argv : (s.store p b).argv = s.argv := rfl

@[simp] theorem typeChar_cursor (c : BitVec 32) :
    (typeChar s c).cursor = u32 (s.cursor + 1) := by
  unfold typeChar
  rw [call_cursor, moveTo_cursor]

@[simp] theorem typeChar_buffer (c : BitVec 32) :
    (typeChar s c).buffer = s.buffer.write s.cursor (c.setWidth 8) := by
  unfold typeChar
  rw [call_buffer, moveTo_buffer, store_buffer]

@[simp] theorem typeChar_argv (c : BitVec 32) : (typeChar s c).argv = s.argv := by
  unfold typeChar
  rw [call_argv, moveTo_argv, store_argv]

@[simp] theorem eraseChar_cursor : (eraseChar s).cursor = sub32 s.cursor 1 := by
  unfold eraseChar
  rw [call_cursor, store_cursor, moveTo_cursor]

@[simp] theorem eraseChar_buffer :
    (eraseChar s).buffer = s.buffer.write (sub32 s.cursor 1) 0 := by
  unfold eraseChar
  rw [call_buffer, store_buffer, moveTo_buffer, moveTo_cursor]

@[simp] theorem eraseChar_argv : (eraseChar s).argv = s.argv := by
  unfold eraseChar
  rw [call_argv, store_argv, moveTo_argv]

@[simp] theorem shellPrompt_cursor : (shellPrompt s).cursor = 0 := rfl
@[simp] theorem shellPrompt_buffer : (shellPrompt s).buffer = s.buffer := rfl
@[simp] theorem shellPrompt_argv : (shellPrompt s).argv = s.argv := rfl

end Fields

/-- Printing the words reads `argv` and writes nothing. -/
theorem printWords_keeps (s : Shell) (i left : ℕ) :
    (printWords s i left).cursor = s.cursor ∧ (printWords s i left).buffer = s.buffer ∧
      (printWords s i left).argv.writes = s.argv.writes := by
  induction left generalizing s i with
  | zero => exact ⟨rfl, rfl, rfl⟩
  | succ left ih =>
      obtain ⟨hcursor, hbuffer, hwrites⟩ := ih
        (({ s with argv := (s.argv.read i).2 } : Shell).call
          (.printf "%d. %s\n" [.int i, .str (s.argv.read i).1])) (i + 1)
      exact ⟨hcursor, hbuffer, hwrites⟩

end OsdevX64.ShellModule
