import OsdevX64.Session.Machine
import OsdevX64.Shell.Bounds

/-!
# The transcript of a session

What a session should put on the screen, said without buffers, arguments or formats:
the greeting and a prompt, then the answer to each key event.  A printable character is
echoed, a backspace takes one back when there is one to take, and Enter lists the words
of the pending line and shows a new prompt.

The pending line is that of the reference editor (`ShellModule.edit`).
-/

namespace OsdevX64.Session

open ByteMemory Words Kernel Console
open Stdio (ch)
open ShellModule (Prints edit isSpace)

/-! ## Texts -/

/-- The line with the number of words. -/
def argcLine (n : ℕ) : List Byte := chars "argc = " ++ (decimal n ++ chars "\n")

/-- The line for one word. -/
def wordLine (i : ℕ) (word : List Byte) : List Byte :=
  decimal i ++ chars ". " ++ word ++ chars "\n"

/-- The lines for the given words, numbered from `i` on. -/
def wordLines : ℕ → List (List Byte) → List Byte
  | _, [] => []
  | i, word :: rest => wordLine i word ++ wordLines (i + 1) rest

/-- What a command prints. -/
def commandText (line : List Byte) : List Byte :=
  argcLine (words isSpace line).length ++ wordLines 0 (words isSpace line)

example : commandText (chars " ls  -l") = chars "argc = 2\n0. ls\n1. -l\n" := by decide +kernel

/-! ## Calls -/

/-- A new line with a prompt. -/
def promptCalls : List Call :=
  .setColor terminalGreen terminalBlack :: textCalls (chars "\nImaginaryOS>") ++
    .setColor terminalWhite terminalBlack :: textCalls (chars " ")

/-- The banner of the shell. -/
def banner : String :=
  "\n\nImaginaryOS made by Anton and Tim\n\n" ++
    "###########    ###########\n" ++
    "###########    ###########\n" ++
    "###                    ###\n" ++
    "###                    ###\n" ++
    "###                    ###\n" ++
    "\n" ++
    "###                    ###\n" ++
    "###                    ###\n" ++
    "###                    ###\n" ++
    "###########    ###########\n" ++
    "###########    ###########\n\n"

/-- What INIT prints. -/
def greeting : List Call :=
  [.setColor terminalRed terminalBlack] ++ (textCalls (chars banner) ++ promptCalls)

/-- The answer to a key event, with the pending line. -/
def answer (line : List Byte) (e : ModuleKeyEvent) : List Call :=
  if e.released ≠ 0 then []
  else if Prints e then textCalls [e.codepoint.setWidth 8]
  else if e.codepoint = 10 then
    textCalls (chars "\n") ++ textCalls (commandText line) ++ promptCalls
  else if e.codepoint = 8 ∧ line ≠ [] then textCalls (chars "\x08")
  else []

/-- The answers to a sequence of key events. -/
def transcript : List Byte → List ModuleKeyEvent → List Call
  | _, [] => []
  | line, e :: events => answer line e ++ transcript (edit line e) events

/-- The key events among the signals. -/
def keysOf (signals : List Signal) : List ModuleKeyEvent :=
  signals.filterMap fun
    | .keyboard e => some e
    | _ => none

end OsdevX64.Session
