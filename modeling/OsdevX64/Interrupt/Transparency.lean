import OsdevX64.Interrupt.Stub

/-!
# What an interrupt does to the interrupted code

`popa64` pops in the order in which `pusha64` pushes.  Popping undoes pushing
only in the reverse order, so the fifteen registers come back mirrored: `rax`
receives what `r15` held and `r15` what `rax` held, and only the middle register
`r8` returns to itself (`isr_exit`).

The stack side of the path is right for both kinds of stub: at the `iretq` the
stack pointer is at the saved `rip`, and the five words of the CPU are intact.
-/

namespace OsdevX64.Interrupt

open ByteMemory

/-- The contract of `isr_handler` for one call, entered in the state `s`: it
returns the `rsp` it was given and leaves the 22 words of the
`interrupt_cpu_state_t` there as they are.  It may clobber every register and
write any other memory. -/
structure ReturnsFrame (isrHandler : Cpu → Cpu) (s : Cpu) : Prop where
  rax : (isrHandler s).reg .rax = s.reg .rdi
  frame : words (isrHandler s).mem (s.reg .rdi) 22 = words s.mem (s.reg .rdi) 22

/-- The state in which the stub enters `isr_handler`: the return address is on
the stack, the frame above it. -/
def callState (vector : Fin 48) (ret : Word) (i : Interrupted) (s : Cpu) : Cpu :=
  (run (deliver vector i s) (isrStub vector ++ isrEnter)).push ret

/-- The register whose value a register receives from `pusha64` and `popa64`. -/
def mirror : Reg → Reg
  | .rax => .r15 | .rbx => .r14 | .rcx => .r13 | .rdx => .r12
  | .rbp => .r11 | .rdi => .r10 | .rsi => .r9 | .r8 => .r8
  | .r9 => .rsi | .r10 => .rdi | .r11 => .rbp | .r12 => .rdx
  | .r13 => .rcx | .r14 => .rbx | .r15 => .rax

/-- Popping the pushed values in push order mirrors the register file. -/
theorem popInto_pusha64 (reg clobbered : Reg → Word) (r : Reg) :
    popInto popa64 (pusha64.map reg).reverse clobbered r = reg (mirror r) := by
  cases r <;> rfl

/-- The state in which `isr_handler` starts: `rdi` points at the frame of 22
words, the pushed registers followed by the words of delivery and stub. -/
theorem words_frame (vector : Fin 48) (ret : Word) (i : Interrupted) (s : Cpu) :
    let call := run (deliver vector i s) (isrStub vector ++ isrEnter)
    call.reg .rdi = call.rsp ∧ call.rsp = ripAddress s - 136 ∧
      words (call.push ret).mem call.rsp 22 =
        (pusha64.map s.reg).reverse ++ savedWords vector i s := by
  obtain ⟨hreg, hrsp, hsaved⟩ := words_isrStub vector i s
  set entry := run (deliver vector i s) (isrStub vector) with hentry
  obtain ⟨-, hwords⟩ := run_pushes pusha64 { entry with df := false } (n := 7) (by decide)
  set pushed := run { entry with df := false } (pusha64.map .push) with hpushed
  have hpushedRsp : pushed.rsp = ripAddress s - 136 := by
    simp only [hpushed, pusha64, List.map_cons, List.map_nil, run_cons, run_nil, Insn.exec,
      Cpu.push_rsp, hrsp, ripAddress]
    bv_omega
  intro call
  have hcall : call = { pushed with reg := Function.update pushed.reg .rdi pushed.rsp } := by
    simp only [call, isrEnter, run_append, ← hentry, run_cons, run_nil, Insn.exec, ← hpushed]
  have hreg' : pusha64.map ({ entry with df := false } : Cpu).reg = pusha64.map s.reg := by
    rw [← hreg]
  refine ⟨by rw [hcall]; rfl, by rw [hcall]; exact hpushedRsp, ?_⟩
  rw [words_push_above _ _ (by omega), hcall]
  rw [show pusha64.length + 7 = 22 from rfl, hreg', hsaved] at hwords
  exact hwords

/-- **The state at the `iretq`.**  The register file is mirrored, the stack
pointer is at the saved `rip`, and the five words of the CPU are intact. -/
theorem isr_exit {isrHandler : Cpu → Cpu} {vector : Fin 48} {ret : Word} {i : Interrupted}
    {s : Cpu} (h : ReturnsFrame isrHandler (callState vector ret i s)) :
    (∀ r, (isr vector ret isrHandler i s).reg r = s.reg (mirror r)) ∧
      (isr vector ret isrHandler i s).rsp = ripAddress s ∧
      words (isr vector ret isrHandler i s).mem (ripAddress s) 5 =
        [i.rip, i.cs, i.rflags, s.rsp, i.ss] := by
  obtain ⟨hrdi, hrsp, hframe⟩ := words_frame vector ret i s
  set call := run (deliver vector i s) (isrStub vector ++ isrEnter) with hcall
  set back := isrHandler (call.push ret) with hback
  have hrax : back.reg .rax = call.rsp := by
    rw [hback, ← hrdi]
    exact h.rax
  -- 22 words: the pushed registers, vector and error code, and the five of the CPU
  have hkept : words back.mem call.rsp 22 =
      (pusha64.map s.reg).reverse ++ savedWords vector i s := by
    have hsame := h.frame
    rw [callState, Cpu.push_reg, ← hcall, hrdi, ← hback] at hsame
    rw [hsame, hframe]
  have hisr : isr vector ret isrHandler i s =
      run (run { back with rsp := call.rsp } (popa64.map .pop)) [.addRsp 16] := by
    rw [isr, isrHandlerAsm, ← List.append_assoc, ← List.append_assoc, run_append, run_append,
      ← hcall, isrLeave, run_append, run_append, ← hrax]
    rfl
  obtain ⟨hreg, hmem, hpops⟩ := run_pops popa64 { back with rsp := call.rsp }
  have hpopped : words back.mem call.rsp popa64.length = (pusha64.map s.reg).reverse := by
    rw [show (22 : ℕ) = popa64.length + 7 from rfl, words_add] at hkept
    exact (List.append_inj hkept (by simp [popa64, pusha64])).1
  have hcpu : words back.mem (ripAddress s) 5 = [i.rip, i.cs, i.rflags, s.rsp, i.ss] := by
    rw [show (22 : ℕ) = 17 + 5 from rfl, words_add,
      show call.rsp + BitVec.ofNat 64 (8 * 17) = ripAddress s by rw [hrsp]; bv_omega] at hkept
    have hsplit : words back.mem call.rsp 17 ++ words back.mem (ripAddress s) 5 =
        ((pusha64.map s.reg).reverse ++
            [BitVec.ofNat 64 vector, if pushesErrorCode vector then i.errorCode else 0]) ++
          [i.rip, i.cs, i.rflags, s.rsp, i.ss] := by
      rw [hkept, List.append_assoc]
      rfl
    exact (List.append_inj hsplit (by simp [pusha64])).2
  rw [hisr]
  refine ⟨fun r => ?_, ?_, ?_⟩
  · rw [← popInto_pusha64 s.reg back.reg r, ← hpopped, ← hreg]
    rfl
  · rw [run_cons, run_nil, Insn.exec, hpops, hrsp]
    simp only [popa64, List.length_cons, List.length_nil]
    bv_omega
  · rw [← hcpu, ← hmem]
    rfl

/-! ## Transparency -/

/-- The interrupted code gets back its registers and its return address. -/
def Transparent (vector : Fin 48) (ret : Word) (isrHandler : Cpu → Cpu) (i : Interrupted)
    (s : Cpu) : Prop :=
  (∀ r, (isr vector ret isrHandler i s).reg r = s.reg r) ∧
    (isr vector ret isrHandler i s).rsp = ripAddress s ∧
    load64 (isr vector ret isrHandler i s).mem (ripAddress s) = i.rip

/-- **An interrupt is transparent exactly to code whose registers read the same
in push order and in reverse**, whenever `isr_handler` keeps its contract in the
one call the stub makes. -/
theorem transparent_iff_mirrored {isrHandler : Cpu → Cpu} (vector : Fin 48) (ret : Word)
    (i : Interrupted) (s : Cpu) (h : ReturnsFrame isrHandler (callState vector ret i s)) :
    Transparent vector ret isrHandler i s ↔
      s.reg .rax = s.reg .r15 ∧ s.reg .rbx = s.reg .r14 ∧ s.reg .rcx = s.reg .r13 ∧
        s.reg .rdx = s.reg .r12 ∧ s.reg .rbp = s.reg .r11 ∧ s.reg .rdi = s.reg .r10 ∧
        s.reg .rsi = s.reg .r9 := by
  obtain ⟨hreg, hrsp, hwords⟩ := isr_exit h
  have hrip : load64 (isr vector ret isrHandler i s).mem (ripAddress s) = i.rip :=
    (List.cons.inj hwords).1
  constructor
  · rintro ⟨hsame, -, -⟩
    have hmirror : ∀ r, s.reg (mirror r) = s.reg r := fun r => (hreg r).symm.trans (hsame r)
    exact ⟨(hmirror .rax).symm, (hmirror .rbx).symm, (hmirror .rcx).symm,
      (hmirror .rdx).symm, (hmirror .rbp).symm, (hmirror .rdi).symm, (hmirror .rsi).symm⟩
  -- `mirror` swaps seven pairs and fixes `r8`, so one equation a pair is enough
  · rintro ⟨hax, hbx, hcx, hdx, hbp, hdi, hsi⟩
    refine ⟨fun r => ?_, hrsp, hrip⟩
    rw [hreg r]
    cases r <;> simp only [mirror, hax, hbx, hcx, hdx, hbp, hdi, hsi]

/-! ## A handler on the stack -/

/-- A handler that uses its stack, below the frame: it saves `rbp`, puts an
immediate there and takes it off into `rcx`, restores `rbp`, sets `rax` and
returns. -/
def stackingHandler (s : Cpu) : Cpu :=
  let back := run s [.push .rbp, .pushImm 0x2A, .pop .rcx, .pop .rbp]
  { back with reg := Function.update back.reg .rax (s.reg .rdi), rsp := back.rsp + 8 }

/-- The frame lies directly above the return address. -/
theorem callState_rdi (vector : Fin 48) (ret : Word) (i : Interrupted) (s : Cpu) :
    (callState vector ret i s).reg .rdi = (callState vector ret i s).rsp + 8 := by
  obtain ⟨hrdi, -, -⟩ := words_frame vector ret i s
  rw [callState, Cpu.push_reg, Cpu.push_rsp, hrdi, BitVec.sub_add_cancel]

/-- What a handler pushes goes below the frame. -/
theorem stackingHandler_returnsFrame {s : Cpu} (h : s.reg .rdi = s.rsp + 8) :
    ReturnsFrame stackingHandler s where
  rax := rfl
  frame := by
    -- each push leaves the words above its stack pointer alone; the frame is
    -- their tail without the return address and the words pushed before
    have hfirst := (List.cons.inj (words_push_above s (s.reg .rbp) (n := 23) (by omega))).2
    have hsecond := (List.cons.inj (words_push_above (s.push (s.reg .rbp)) 0x2A (n := 24)
      (by omega))).2
    rw [Cpu.push_rsp, BitVec.sub_add_cancel] at hsecond
    rw [h, ← hfirst]
    exact (List.cons.inj hsecond).2

/-- Interrupted code with `rax = 1` and every other register 0. -/
def loneRax : Cpu where
  reg r := if r = .rax then 1 else 0
  rsp := 0x8000
  mem _ := 0
  df := false

theorem transparent_iff_mirrored_stacking :
    Transparent 8 0 stackingHandler ⟨0, 0, 0, 0, 0⟩ { loneRax with reg := fun _ => 7 } :=
  (transparent_iff_mirrored 8 0 ⟨0, 0, 0, 0, 0⟩ { loneRax with reg := fun _ => 7 }
    (stackingHandler_returnsFrame (callState_rdi 8 0 _ _))).mpr
    ⟨rfl, rfl, rfl, rfl, rfl, rfl, rfl⟩

/-- A timer interrupt returns to `loneRax` with `rax = 0`. -/
theorem timer_loses_rax :
    ReturnsFrame stackingHandler (callState 32 0 ⟨0, 0, 0, 0, 0⟩ loneRax) ∧
      ¬ Transparent 32 0 stackingHandler ⟨0, 0, 0, 0, 0⟩ loneRax := by
  have hframe := stackingHandler_returnsFrame (callState_rdi 32 0 ⟨0, 0, 0, 0, 0⟩ loneRax)
  refine ⟨hframe, fun htransparent => ?_⟩
  have hlost : loneRax.reg .r15 = loneRax.reg .rax :=
    ((isr_exit hframe).1 .rax).symm.trans (htransparent.1 .rax)
  exact absurd hlost (by decide)

end OsdevX64.Interrupt
