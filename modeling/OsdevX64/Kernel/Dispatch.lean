import OsdevX64.Kernel.Ps2
import OsdevX64.Loader.ModuleHeader

/-!
# Interrupt dispatch

`isr_handler` and `isr_register` of `kernel/cpu.c`, the handlers of
`kernel/kernel.c` and the part of `module_init` that starts modules.  A function
pointer is the address of a module's handler (0 is `NULL`) or, for the kernel's
own handlers, the name of the function.

Interrupts do not nest: a handler runs to its end before the next one comes.
What the handlers print is left out, and so are the interrupt controllers, which
`Platform` adds.  A handler of a module is its address, and calling it is an entry
of the trace.
-/

namespace OsdevX64.Kernel

open Loader ByteMemory

/-- The functions that `irq_handlers` points to. -/
inductive IrqHandler
  | keyboardIrqHandler
  | timerEvent
  deriving DecidableEq, Repr

/-- The functions that `key_event` points to. -/
inductive KeyHandler
  | bootAnyKey
  | moduleKey
  deriving DecidableEq, Repr

/-- A call of a module's signal handler. -/
structure Delivery where
  handler : BitVec 64
  signal : Signal
  deriving DecidableEq, Repr

/-- What the boot loader hands to `kmain`: the memory map, and memory. -/
structure Boot where
  mem : Mem
  memmap : List MmapEntry

/-- The static data of the kernel, and the calls of signal handlers so far. -/
structure System where
  irqHandlers : ℕ → Option IrqHandler
  keyEvent : Option KeyHandler
  moduleCurHandler : BitVec 64
  decoder : Decoder
  trace : List Delivery

/-- `isr_register`. -/
def System.isrRegister (k : System) (id : ℕ) (handler : IrqHandler) : System :=
  { k with irqHandlers := Function.update k.irqHandlers id (some handler) }

/-- `keyboard_event_register`. -/
def System.keyboardEventRegister (k : System) (handler : KeyHandler) : System :=
  { k with keyEvent := some handler }

/-- Set the static variables of the keyboard driver. -/
def System.setDecoder (k : System) (d : Decoder) : System := { k with decoder := d }

/-- Call a module's signal handler. -/
def System.signal (k : System) (handler : BitVec 64) (signal : Signal) : System :=
  { k with trace := k.trace ++ [⟨handler, signal⟩] }

/-- `if(module_cur_handler)`: call the current handler. -/
def System.signalCurrent (k : System) (signal : Signal) : System :=
  if k.moduleCurHandler ≠ 0 then k.signal k.moduleCurHandler signal else k

/-- `module_key`. -/
def System.moduleKey (k : System) (e : ModuleKeyEvent) : System := k.signalCurrent (.keyboard e)

/-- `timer_event`. -/
def System.timerEvent (k : System) : System := k.signalCurrent .timer

/-- A module is made current and sent INIT. -/
def System.startModule (k : System) (handler : BitVec 64) : System :=
  System.signal { k with moduleCurHandler := handler } handler .init

/-- `module_init`. -/
def System.moduleInit (boot : Boot) (k : System) : System :=
  (Loader.moduleInit boot.mem boot.memmap).foldl System.startModule k

/-- `boot_any_key`. -/
def System.bootAnyKey (boot : Boot) (k : System) (e : ModuleKeyEvent) : System :=
  if e.codepoint = 0x0A then
    -- both registrations come before the first INIT
    ((k.isrRegister 0 .timerEvent).keyboardEventRegister .moduleKey).moduleInit boot
  else k

/-- `if(key_event)`: call the registered handler. -/
def System.dispatchKey (boot : Boot) (k : System) (e : ModuleKeyEvent) : System :=
  match k.keyEvent with
  | none => k
  | some .bootAnyKey => k.bootAnyKey boot e
  | some .moduleKey => k.moduleKey e

/-- `keyboard_irq_handler`, for the byte in port `0x60`. -/
def System.keyboardIrqHandler (boot : Boot) (k : System) (scancode : Byte) : System :=
  let (decoder, e) := decode k.decoder scancode
  let k := k.setDecoder decoder
  match e with
  | none => k
  | some e => k.dispatchKey boot e

/-- `isr_handler`: exceptions stop the machine, other vectors are ignored. -/
def System.isrHandler (boot : Boot) (k : System) (isrNumber : ℕ) (port : Byte) : System :=
  if 32 ≤ isrNumber ∧ isrNumber ≤ 47 then
    match k.irqHandlers (isrNumber - 32) with
    | none => k
    | some .keyboardIrqHandler => k.keyboardIrqHandler boot port
    | some .timerEvent => k.timerEvent
  else k

/-- An interrupt. -/
inductive Interrupt
  /-- The keyboard has a byte for port `0x60`. -/
  | byte (scancode : Byte)
  /-- The timer ticks. -/
  | timer
  deriving DecidableEq, Repr

/-- One interrupt. -/
def System.interrupt (boot : Boot) (k : System) : Interrupt → System
  | .byte scancode => k.isrHandler boot 33 scancode
  | .timer => k.isrHandler boot 32 0

/-- The kernel when `kmain` has registered `boot_any_key`; the decoder has seen
the bytes that came before. -/
def System.booted (d : Decoder) : System :=
  let k : System :=
    { irqHandlers := fun _ => none
      keyEvent := none
      moduleCurHandler := 0
      decoder := d
      trace := [] }
  (k.isrRegister 1 .keyboardIrqHandler).keyboardEventRegister .bootAnyKey

/-- The kernel after the given interrupts. -/
def System.run (boot : Boot) (d : Decoder) (interrupts : List Interrupt) : System :=
  interrupts.foldl (System.interrupt boot) (System.booted d)

end OsdevX64.Kernel
