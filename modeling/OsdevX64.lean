import OsdevX64.Lib.ByteMemory
import OsdevX64.Interrupt.Machine
import OsdevX64.Interrupt.Stub
import OsdevX64.Interrupt.Transparency
import OsdevX64.Interrupt.Frame
import OsdevX64.Interrupt.Descriptors
import OsdevX64.CLib.MemoryOps
import OsdevX64.CLib.StringOps
import OsdevX64.CLib.Memmove
import OsdevX64.Console.Graphics
import OsdevX64.Console.Terminal
import OsdevX64.Console.Bounds
import OsdevX64.Console.Glyph
import OsdevX64.Console.Tail
import OsdevX64.Console.Terminus16
import OsdevX64.Console.Lookups
import OsdevX64.Console.Pixels
import OsdevX64.Console.Coherence
import OsdevX64.Console.Painting
import OsdevX64.Console.Undo
import OsdevX64.Lib.GuardedRun
import OsdevX64.Lib.Words
import OsdevX64.Lib.Compaction
import OsdevX64.Lib.FirstMaximum
import OsdevX64.Lib.BufferLog
import OsdevX64.Lib.Positional
import OsdevX64.Lib.Sweep
import OsdevX64.Lib.XorShift
import OsdevX64.Shell.Bounds
import OsdevX64.Shell.Editing
import OsdevX64.Shell.Splitting
import OsdevX64.Stdio.Format
import OsdevX64.Stdio.Scanning
import OsdevX64.Stdio.Text
import OsdevX64.Stdio.Truncation
import OsdevX64.Stdio.Syntax
import OsdevX64.Stdio.Arguments
import OsdevX64.Stdio.Field
import OsdevX64.Stdio.TextField
import OsdevX64.Stdio.Precision
import OsdevX64.Stdio.Alternate
import OsdevX64.Stdio.DigitBuffer
import OsdevX64.Heap.Allocator
import OsdevX64.Heap.Containment
import OsdevX64.Heap.Layout
import OsdevX64.Heap.Selection
import OsdevX64.Kernel.Dispatch
import OsdevX64.Kernel.Protocol
import OsdevX64.Kernel.Modifiers
import OsdevX64.Loader.Parsing
import OsdevX64.Loader.Naming
import OsdevX64.Clock.Cmos
import OsdevX64.Clock.Decoding
import OsdevX64.Clock.Weekday
import OsdevX64.Tetris.Game
import OsdevX64.Tetris.Invariant
import OsdevX64.Tetris.Rows
import OsdevX64.Tetris.Shuffle
import OsdevX64.Tetris.Dealing
import OsdevX64.Tetris.Generator
import OsdevX64.Console.Printf
import OsdevX64.Console.Edited
import OsdevX64.Kernel.Typing
import OsdevX64.Session.Machine
import OsdevX64.Session.Transcript
import OsdevX64.Session.Calls
import OsdevX64.Session.Refinement
import OsdevX64.Session.Prompt
import OsdevX64.Session.Safety
import OsdevX64.Session.Keyboard
import OsdevX64.Boot.Log
import OsdevX64.Interrupt.Report
import OsdevX64.Tetris.Ledger
import OsdevX64.Tetris.Window
import OsdevX64.Tetris.Refinement
import OsdevX64.Boot.Info
import OsdevX64.Boot.Modules
import OsdevX64.Boot.Survival
import OsdevX64.Console.Serial
import OsdevX64.Session.SerialLog
import OsdevX64.Kernel.Requests
