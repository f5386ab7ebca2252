import OsdevX64.Console.Messages
import OsdevX64.Shell.Machine

/-!
# The shell at the console

The shell runs inside the interrupt that brings its signal and calls the kernel
through the function table of INIT, so what it prints is on the screen before the
next signal comes.  `Session.signal` is one signal: the handler, and then the calls
that it made, in their order.

A handler never waits for a result of a call, and it passes pointers into its line
buffer only after its last write there (`printWords_keeps`).  The calls are therefore
carried out on the buffer that it leaves.
-/

namespace OsdevX64

open ByteMemory Kernel Console
open Stdio (Build CString Env Fault ch)
open ShellModule (Shell Arg Output shellBufferSize)

/-- The shell and the console. -/
structure Session where
  shell : Shell
  screen : Screen

namespace Session

/-! ## Calls of the kernel -/

/-- Where the shell is loaded, and what is left to the build when `printf` is called. -/
structure Frame where
  /-- The address of `shell.Buffer`. -/
  base : BitVec 64
  build : Screen → Build

/-- The word in which an argument is passed. -/
def argWord (base : BitVec 64) : Arg → BitVec 64
  | .int n => BitVec.ofNat 64 n
  | .str p => base + BitVec.ofNat 64 p

/-- What `printf` gets besides its format. -/
def Frame.env (f : Frame) (s : Screen) (buffer : Memory ℕ) (args : List Arg) : Env where
  args ap := (args.map (argWord f.base)).getD ap 0
  strings a := cStringAt buffer shellBufferSize (a - f.base).toNat
  toBuild := f.build s

/-- One call. -/
def Frame.perform (f : Frame) (buffer : Memory ℕ) (s : Screen) : Output → Except Fault Screen
  | .terminalSetColor fg bg => .ok (terminalSetColor s fg bg)
  | .printf format args => printf (f.env s buffer args) (f.build s).stack s (literal format)

/-! ## Signals -/

/-- Forget the calls that have been carried out. -/
def drained (s : Shell) : Shell := { s with output := [] }

/-- One signal. -/
def signal (f : Frame) (σ : Session) (sig : Signal) : Option Session := do
  let shell ← ShellModule.signalHandler (drained σ.shell) sig
  let screen ← (shell.output.reverse.foldlM (f.perform shell.buffer.cell) σ.screen).toOption
  return ⟨shell, screen⟩

/-- A sequence of signals. -/
def run (f : Frame) (σ : Session) (signals : List Signal) : Option Session :=
  signals.foldlM (signal f) σ

/-- The shell as it is loaded, at a console that is in use. -/
def boot (argv : ℕ → ℕ) (s : Screen) : Session := ⟨Shell.boot argv, s⟩

end Session

end OsdevX64
