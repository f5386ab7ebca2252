import OsdevX64.Boot.Reports
import OsdevX64.Interrupt.Frame

/-!
# The report of an exception

For the vectors 0 to 31 `isr_handler` prints what happened and a dump of the registers, and
halts.  The report is complete: **the number, the name, the error code and all twenty
registers are read back from it** (`readException_text`), each under the label that the
format has for it.

Together with the frame that the stubs build this says what a crash shows of the program
that crashed: **every register under its own label, but `rbp` and `rsi` under each
other's** (`exception_reads_back`).
-/

namespace OsdevX64.Interrupt

open ByteMemory Console Boot
open Stdio (Build Fault Item Value ch integerDirective)

/-! ## The source -/

/-- `exceptions`. -/
def exceptions : List String :=
  ["Divide Error", "Debug Exception", "NMI Interrupt", "Breakpoint", "Overflow",
    "Bound Range Exceeded", "Invalid Opcode (Undefined Opcode)",
    "Device Not Available (No Math Coprocessor)", "Double Fault",
    "Coprocessor Segment Overrun (reserved)", "Invalid TSS", "Segment Not Present",
    "Stack-Segment Fault", "General Protection", "Page Fault", "Intel reserved",
    "x87 FPU Floating-Point Error (Math Fault)", "Alignment Check", "Machine Check",
    "SIMD Floating-Point Exception", "Virtualization Exception",
    "Control Protection Exception"] ++ List.replicate 10 "Intel reserved"

/-- The first `printf` of `isr_handler`. -/
def exceptionFormat : Format where
  items := stretch "\nUNHANDLED EXCEPTION OCCURED\n\n" ++
    stretch "ISR-No. " ++ .directive (integerDirective [] .absent .l .d) :: stretch ": " ++
    str :: stretch "\n" ++
    stretch "Error code: 0x" ++ .directive (integerDirective [.zero] .absent .l .x) ::
    stretch "\n\n\n" ++ stretch "Register dump:\n\n"
  delimited := by decide +kernel
  fit := by decide +kernel
  textsEnd := by decide +kernel
  room_lt := by decide +kernel

/-- The second `printf`. -/
def dumpFormat : Format where
  items :=
    stretch "  rax: 0x" ++ hex16 :: stretch "   rbx:    0x" ++ hex16 ::
    stretch "   rcx: 0x" ++ hex16 :: stretch "   rdx: 0x" ++ hex16 :: stretch "\n" ++
    stretch "  rsi: 0x" ++ hex16 :: stretch "   rdi:    0x" ++ hex16 ::
    stretch "   rbp: 0x" ++ hex16 :: stretch "   r8:  0x" ++ hex16 :: stretch "\n" ++
    stretch "  r9:  0x" ++ hex16 :: stretch "   r10:    0x" ++ hex16 ::
    stretch "   r11: 0x" ++ hex16 :: stretch "   r12: 0x" ++ hex16 :: stretch "\n" ++
    stretch "  r13: 0x" ++ hex16 :: stretch "   r14:    0x" ++ hex16 ::
    stretch "   r15: 0x" ++ hex16 :: stretch "   ss:  0x" ++ hex16 :: stretch "\n" ++
    stretch "  rsp: 0x" ++ hex16 :: stretch "   rflags: 0x" ++ hex16 ::
    stretch "   cs   0x" ++ hex16 :: stretch "   rip: 0x" ++ hex16 :: stretch "\n"
  delimited := by decide +kernel
  fit := by decide +kernel
  textsEnd := by decide +kernel
  room_lt := by decide +kernel

/-- The arguments of the first `printf`. -/
def exceptionArgs (cpu : InterruptCpuState) : List PrintArg :=
  [.word cpu.isrNumber, .str (literal (exceptions.getD cpu.isrNumber.toNat "")),
    .word cpu.errorCode]

/-- The arguments of the second `printf`, in the order of the labels. -/
def dumpArgs (cpu : InterruptCpuState) : List PrintArg :=
  (registerDump cpu).map fun r => .word r.2

/-- The case `isr_number <= 31` of `isr_handler`, up to `cli; hlt`. -/
def reportException (build : Screen → Build) (s : Screen) (cpu : InterruptCpuState) :
    Except Fault Screen := do
  let s ← exceptionFormat.print build s (exceptionArgs cpu)
  dumpFormat.print build s (dumpArgs cpu)

/-! ## Reading the report -/

/-- What is printed. -/
def exceptionText (cpu : InterruptCpuState) : List Byte :=
  exceptionFormat.text (exceptionArgs cpu) ++ dumpFormat.text (dumpArgs cpu)

/-- What a report says. -/
structure ExceptionReport where
  number : ℤ
  name : List Byte
  errorCode : Word
  registers : List (String × Word)
  deriving DecidableEq

/-- The labels of the dump. -/
def dumpLabels : List String :=
  ["rax", "rbx", "rcx", "rdx", "rsi", "rdi", "rbp", "r8", "r9", "r10", "r11", "r12", "r13",
    "r14", "r15", "ss", "rsp", "rflags", "cs", "rip"]

/-- The number behind a label. -/
def word : Value → Word
  | .int v => BitVec.ofInt 64 v
  | _ => 0

/-- Read a report. -/
def readException (text : List Byte) : Option ExceptionReport := do
  let (values, text) ← exceptionFormat.read text
  let (words, text) ← dumpFormat.read text
  match values with
  | [.int number, .text name, .int errorCode] =>
      if text = [] then
        some ⟨number, name, BitVec.ofInt 64 errorCode, dumpLabels.zip (words.map word)⟩
      else none
  | _ => none

/-- The names can be printed. -/
theorem exceptions_named : ∀ name ∈ exceptions, Named (chars name) := by
  unfold exceptions
  rw [List.forall_mem_append]
  constructor
  · simp only [List.forall_mem_cons]
    refine ⟨?_, ?_, ?_, ?_, ?_, ?_, ?_, ?_, ?_, ?_, ?_, ?_, ?_, ?_, ?_, ?_, ?_, ?_, ?_, ?_, ?_, ?_,
      fun name hname => absurd hname List.not_mem_nil⟩
    all_goals
      rw [chars_ofList]
      decide +kernel
  · intro name hname
    rw [List.eq_of_mem_replicate hname, chars_ofList]
    decide +kernel

theorem exception_named {n : ℕ} (h : n < 32) : Named (chars (exceptions.getD n "")) := by
  have hlen : n < exceptions.length := h
  rw [List.getD_eq_getElem _ _ hlen]
  exact exceptions_named _ (List.getElem_mem hlen)

theorem exceptionArgs_ok {cpu : InterruptCpuState} (h : cpu.isrNumber.toNat < 32) :
    ∀ a ∈ exceptionArgs cpu, a.Ok := by
  have hname := exception_named h
  have hok : (PrintArg.str (literal (exceptions.getD cpu.isrNumber.toNat ""))).Ok := by
    show Named (literal _).bytes
    rw [literal_bytes hname]
    exact hname
  simp only [exceptionArgs, List.forall_mem_cons]
  exact ⟨trivial, hok, trivial, no_args_ok⟩

theorem dumpArgs_ok (cpu : InterruptCpuState) : ∀ a ∈ dumpArgs cpu, a.Ok := by
  intro a ha
  obtain ⟨r, -, rfl⟩ := List.mem_map.mp ha
  trivial

/-! ## The values -/

theorem values_exception (cpu : InterruptCpuState) :
    exceptionFormat.values (exceptionArgs cpu) =
      [.int (cpu.isrNumber.setWidth 64).toInt,
        .text (literal (exceptions.getD cpu.isrNumber.toNat "")).bytes,
        .int (cpu.errorCode.setWidth 64).toNat] := by
  unfold Format.values exceptionFormat
  simp only [List.append_assoc, List.cons_append]
  rw [itemsValues_stretch, itemsValues_stretch, Stdio.itemsValues, itemsValues_stretch, values_str,
    itemsValues_stretch, itemsValues_stretch, Stdio.itemsValues, itemsValues_stretch, values_nil]
  rfl

theorem values_dump (cpu : InterruptCpuState) :
    dumpFormat.values (dumpArgs cpu) =
      (registerDump cpu).map fun r => .int (r.2.toNat : ℤ) := by
  unfold Format.values dumpFormat
  simp only [List.append_assoc, List.cons_append, itemsValues_stretch, values_hex16, values_nil]
  rfl

/-- **The report says what it was made from.** -/
theorem readException_text {cpu : InterruptCpuState} (h : cpu.isrNumber.toNat < 32) :
    readException (exceptionText cpu) =
      some ⟨cpu.isrNumber.toNat, chars (exceptions.getD cpu.isrNumber.toNat ""), cpu.errorCode,
        registerDump cpu⟩ := by
  have hnumber : cpu.isrNumber.toInt = cpu.isrNumber.toNat :=
    BitVec.toInt_eq_toNat_of_lt (by omega)
  have hword (v : Word) : BitVec.ofInt 64 (v.toNat : ℤ) = v := by
    rw [BitVec.ofInt_natCast, BitVec.ofNat_toNat, BitVec.setWidth_eq]
  have hdump : dumpLabels.zip
      (((registerDump cpu).map fun r => Value.int (r.2.toNat : ℤ)).map word) =
        registerDump cpu := by
    have hwords : ((registerDump cpu).map fun r => Value.int (r.2.toNat : ℤ)).map word =
        (registerDump cpu).map Prod.snd := by
      rw [List.map_map]
      exact List.map_congr_left fun r _ => hword r.2
    rw [hwords]
    rfl
  have hbehind := dumpFormat.read_text (dumpArgs_ok cpu) []
  rw [List.append_nil] at hbehind
  unfold readException exceptionText
  simp only [exceptionFormat.read_text (exceptionArgs_ok h), hbehind, Option.bind_eq_bind,
    Option.bind_some, values_exception, values_dump, literal_bytes (exception_named h), hnumber,
    hdump, if_true, BitVec.setWidth_eq, hword]

/-- The report is printed. -/
theorem reportException_eq (build : Screen → Build) (s : Screen) {cpu : InterruptCpuState}
    (h : cpu.isrNumber.toNat < 32) :
    reportException build s cpu = .ok (runCalls s (textCalls (exceptionText cpu))) := by
  unfold reportException exceptionText
  rw [exceptionFormat.print_eq build s (exceptionArgs_ok h)
      (exceptionFormat.noOverflow (by decide +kernel) _), Stdio.ok_bind,
    dumpFormat.print_eq build _ (dumpArgs_ok cpu) (dumpFormat.noOverflow (by decide +kernel) _),
    textCalls_append, runCalls_append]

/-! ## What a crash shows -/

/-- **A crash is reported with every register of the program that crashed**, `rbp` and `rsi`
under each other's label. -/
theorem exception_reads_back (build : Screen → Build) (s : Screen) {vector : Fin 48}
    (hvector : vector.val < 32) (ret : Word) (i : Interrupted) (cpu : Cpu) :
    let seen := seenState vector ret i cpu
    reportException build s seen = .ok (runCalls s (textCalls (exceptionText seen))) ∧
      readException (exceptionText seen) =
        some ⟨vector.val, chars (exceptions.getD vector.val ""),
          if pushesErrorCode vector then i.errorCode else 0,
          registerDump { interruptedState vector i cpu with
            rbp := cpu.reg .rsi, rsi := cpu.reg .rbp }⟩ := by
  intro seen
  have hseen : seen = { interruptedState vector i cpu with
      rbp := cpu.reg .rsi, rsi := cpu.reg .rbp } := interruptCpuState_call vector ret i cpu
  have hnumber : seen.isrNumber.toNat = vector.val := by
    rw [hseen]
    show (BitVec.ofNat 64 vector.val).toNat = _
    rw [BitVec.toNat_ofNat]
    omega
  have hlt : seen.isrNumber.toNat < 32 := by omega
  refine ⟨reportException_eq build s hlt, ?_⟩
  rw [readException_text hlt, hnumber, hseen]
  rfl

/-- A page fault taken with `rbp = 0x7000`. -/
theorem exception_reads_back_pageFault :
    let seen := seenState 14 0 ⟨0, 0, 0, 0, 0x2A⟩ framePointerSet
    reportException (fun _ => ⟨fun _ => 1, 0⟩) (Screen.boot (fun _ => 0) (fun _ => 0) 160) seen =
        .ok (runCalls (Screen.boot (fun _ => 0) (fun _ => 0) 160)
          (textCalls (exceptionText seen))) ∧
      readException (exceptionText seen) =
        some ⟨14, chars "Page Fault", 0x2A, registerDump
          { interruptedState 14 ⟨0, 0, 0, 0, 0x2A⟩ framePointerSet with
            rbp := 0, rsi := 0x7000 }⟩ :=
  exception_reads_back _ _ (show (14 : Fin 48).val < 32 by decide) 0 _ _

end OsdevX64.Interrupt
