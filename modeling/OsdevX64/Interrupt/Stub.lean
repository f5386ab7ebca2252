import OsdevX64.Interrupt.Machine

/-!
# Interrupt delivery and the stubs of `platform.s`

The CPU delivers an interrupt by aligning the stack and pushing five words, and
an error code for some exceptions.  `isrStubErr` and `isrStubNoErr` are the two
stub macros, `isrStub` the table of the 48 stubs, `isrHandlerAsm` the common
path they jump to, up to its `iretq`.

`words_isrStub` describes the stack when the common path starts: for either kind
of stub the same seven words, in the order of the last seven fields of
`interrupt_cpu_state_t`.
-/

namespace OsdevX64.Interrupt

open ByteMemory

/-- What the CPU saves of the interrupted code, besides its stack pointer. -/
structure Interrupted where
  rip : Word
  cs : Word
  rflags : Word
  ss : Word
  errorCode : Word

/-- The exceptions for which the CPU pushes an error code. -/
def pushesErrorCode (vector : ℕ) : Bool :=
  vector ∈ [8, 10, 11, 12, 13, 14, 17, 21]

/-- Interrupt delivery in 64-bit mode: the stack is aligned to 16 bytes, then
`ss`, `rsp`, `rflags`, `cs`, `rip` and possibly an error code are pushed. -/
def deliver (vector : ℕ) (i : Interrupted) (s : Cpu) : Cpu :=
  let aligned : Cpu := { s with rsp := s.rsp &&& ~~~15 }
  let saved := ((((aligned.push i.ss).push s.rsp).push i.rflags).push i.cs).push i.rip
  if pushesErrorCode vector then saved.push i.errorCode else saved

/-- The address at which `deliver` puts `rip`. -/
def ripAddress (s : Cpu) : Word := (s.rsp &&& ~~~15) - 40

/-! ## The code -/

/-- The `pusha64` macro. -/
def pusha64 : List Reg :=
  [.rax, .rbx, .rcx, .rdx, .rbp, .rdi, .rsi,
    .r8, .r9, .r10, .r11, .r12, .r13, .r14, .r15]

/-- The `popa64` macro. -/
def popa64 : List Reg :=
  [.rax, .rbx, .rcx, .rdx, .rbp, .rdi, .rsi,
    .r8, .r9, .r10, .r11, .r12, .r13, .r14, .r15]

/-- The `ISR_STUB_ERR` macro, up to its jump. -/
def isrStubErr (vector : ℕ) : List Insn := [.pushImm (BitVec.ofNat 64 vector)]

/-- The `ISR_STUB_NO_ERR` macro, up to its jump. -/
def isrStubNoErr (vector : ℕ) : List Insn :=
  [.pushImm 0, .pushImm (BitVec.ofNat 64 vector)]

/-- The stub table: vectors 0 to 47, each with its macro. -/
def isrStub (vector : Fin 48) : List Insn :=
  if vector.val ∈ [8, 10, 11, 12, 13, 14, 17, 21] then isrStubErr vector
  else isrStubNoErr vector

/-- `_isr_handler_asm` before its call. -/
def isrEnter : List Insn := [.cld] ++ pusha64.map .push ++ [.movFromRsp .rdi]

/-- `_isr_handler_asm` between its call and its `iretq`. -/
def isrLeave : List Insn := [.movToRsp .rax] ++ popa64.map .pop ++ [.addRsp 16]

/-- `_isr_handler_asm` up to its `iretq`; `ret` is the address the call pushes. -/
def isrHandlerAsm (ret : Word) (isrHandler : Cpu → Cpu) : List Insn :=
  isrEnter ++ [.call ret isrHandler] ++ isrLeave

/-- An interrupt from its delivery to the `iretq` that ends it. -/
def isr (vector : Fin 48) (ret : Word) (isrHandler : Cpu → Cpu) (i : Interrupted)
    (s : Cpu) : Cpu :=
  run (deliver vector i s) (isrStub vector ++ isrHandlerAsm ret isrHandler)

/-! ## The stack when the common path starts -/

/-- The words `deliver` and a stub leave on the stack, lowest address first. -/
def savedWords (vector : Fin 48) (i : Interrupted) (s : Cpu) : List Word :=
  [BitVec.ofNat 64 vector, if pushesErrorCode vector then i.errorCode else 0,
    i.rip, i.cs, i.rflags, s.rsp, i.ss]

/-- The words pushed one after the other, last first. -/
theorem words_pushed (s : Cpu) (vs : List Word) (h : 8 * vs.length ≤ 2 ^ 64) :
    words (vs.foldr (fun v s => s.push v) s).mem (vs.foldr (fun v s => s.push v) s).rsp
      vs.length = vs := by
  induction vs with
  | nil => rfl
  | cons v vs ih =>
      simp only [List.length_cons] at h ⊢
      rw [List.foldr_cons, words_push _ v h, ih (by omega)]

/-- **Both kinds of stub complete the same frame.** -/
theorem words_isrStub (vector : Fin 48) (i : Interrupted) (s : Cpu) :
    let entry := run (deliver vector i s) (isrStub vector)
    entry.reg = s.reg ∧ entry.rsp = (s.rsp &&& ~~~15) - 56 ∧
      words entry.mem entry.rsp 7 = savedWords vector i s := by
  have hpushed : run (deliver vector i s) (isrStub vector) =
      (savedWords vector i s).foldr (fun v s => s.push v)
        { s with rsp := s.rsp &&& ~~~15 } := by
    by_cases hv : vector.val ∈ [8, 10, 11, 12, 13, 14, 17, 21]
    · simp only [isrStub, isrStubErr, deliver, pushesErrorCode, hv, decide_true,
        savedWords, if_true, run_cons, run_nil, Insn.exec, List.foldr_cons, List.foldr_nil]
    · simp only [isrStub, isrStubNoErr, deliver, pushesErrorCode, hv, decide_false,
        Bool.false_eq_true, if_false, savedWords, run_cons, run_nil, Insn.exec,
        List.foldr_cons, List.foldr_nil]
  intro entry
  have hwords := words_pushed { s with rsp := s.rsp &&& ~~~15 } (savedWords vector i s)
    (by simp [savedWords])
  rw [← hpushed] at hwords
  refine ⟨?_, ?_, hwords⟩
  · simp only [entry, hpushed, savedWords, List.foldr_cons, List.foldr_nil, Cpu.push_reg]
  · simp only [entry, hpushed, savedWords, List.foldr_cons, List.foldr_nil, Cpu.push_rsp]
    bv_omega

end OsdevX64.Interrupt
