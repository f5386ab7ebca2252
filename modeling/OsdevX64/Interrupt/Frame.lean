import OsdevX64.Interrupt.Transparency

/-!
# The frame `isr_handler` reads

`interrupt_cpu_state_t` names the 22 words at the `rsp` that `isr_handler` is
given; `pusha64` and the stubs wrote them.  The two files agree on every word
but two: the struct lists `rbp`, `rdi`, `rsi` from the lower address up, and the
pushes leave `rsi`, `rdi`, `rbp` there.  So the field `rbp` holds `rsi` and the
field `rsi` holds `rbp` (`interruptCpuState_call`), for every vector and either
kind of stub, and the register dump prints the two under each other's name.
-/

namespace OsdevX64.Interrupt

open ByteMemory

/-- `interrupt_cpu_state_t`, lowest address first. -/
structure InterruptCpuState where
  r15 : Word
  r14 : Word
  r13 : Word
  r12 : Word
  r11 : Word
  r10 : Word
  r9 : Word
  r8 : Word
  rbp : Word
  rdi : Word
  rsi : Word
  rdx : Word
  rcx : Word
  rbx : Word
  rax : Word
  isrNumber : Word
  errorCode : Word
  rip : Word
  cs : Word
  rflags : Word
  rsp : Word
  ss : Word
  deriving DecidableEq, Repr

/-- `(interrupt_cpu_state_t *)rsp`: each field at its offset in the struct. -/
def interruptCpuState (m : Memory Word) (rsp : Word) : InterruptCpuState :=
  let field (i : ℕ) : Word := load64 m (rsp + BitVec.ofNat 64 (8 * i))
  { r15 := field 0, r14 := field 1, r13 := field 2, r12 := field 3
    r11 := field 4, r10 := field 5, r9 := field 6, r8 := field 7
    rbp := field 8, rdi := field 9, rsi := field 10, rdx := field 11
    rcx := field 12, rbx := field 13, rax := field 14
    isrNumber := field 15, errorCode := field 16
    rip := field 17, cs := field 18, rflags := field 19, rsp := field 20, ss := field 21 }

/-- The register dump of `isr_handler`: the labels of its format string, each
with the argument printed after it. -/
def registerDump (cpu : InterruptCpuState) : List (String × Word) :=
  [("rax", cpu.rax), ("rbx", cpu.rbx), ("rcx", cpu.rcx), ("rdx", cpu.rdx),
    ("rsi", cpu.rsi), ("rdi", cpu.rdi), ("rbp", cpu.rbp), ("r8", cpu.r8),
    ("r9", cpu.r9), ("r10", cpu.r10), ("r11", cpu.r11), ("r12", cpu.r12),
    ("r13", cpu.r13), ("r14", cpu.r14), ("r15", cpu.r15), ("ss", cpu.ss),
    ("rsp", cpu.rsp), ("rflags", cpu.rflags), ("cs", cpu.cs), ("rip", cpu.rip)]

/-- The state of the interrupted code under the names of the struct: what the
fields are meant to hold. -/
def interruptedState (vector : Fin 48) (i : Interrupted) (s : Cpu) : InterruptCpuState where
  r15 := s.reg .r15
  r14 := s.reg .r14
  r13 := s.reg .r13
  r12 := s.reg .r12
  r11 := s.reg .r11
  r10 := s.reg .r10
  r9 := s.reg .r9
  r8 := s.reg .r8
  rbp := s.reg .rbp
  rdi := s.reg .rdi
  rsi := s.reg .rsi
  rdx := s.reg .rdx
  rcx := s.reg .rcx
  rbx := s.reg .rbx
  rax := s.reg .rax
  isrNumber := BitVec.ofNat 64 vector
  errorCode := if pushesErrorCode vector then i.errorCode else 0
  rip := i.rip
  cs := i.cs
  rflags := i.rflags
  rsp := s.rsp
  ss := i.ss

/-- The state `isr_handler` sees: the frame at the `rsp` it is passed in `rdi`,
after the call has pushed its return address `ret`. -/
def seenState (vector : Fin 48) (ret : Word) (i : Interrupted) (s : Cpu) :
    InterruptCpuState :=
  let call := run (deliver vector i s) (isrStub vector ++ isrEnter)
  interruptCpuState (call.push ret).mem (call.reg .rdi)

/-- The fields are the words of the frame in order. -/
theorem interruptCpuState_of_words {m : Memory Word} {rsp : Word}
    {a₀ a₁ a₂ a₃ a₄ a₅ a₆ a₇ a₈ a₉ a₁₀ a₁₁ a₁₂ a₁₃ a₁₄ a₁₅ a₁₆ a₁₇ a₁₈ a₁₉ a₂₀ a₂₁ : Word}
    (h : words m rsp 22 = [a₀, a₁, a₂, a₃, a₄, a₅, a₆, a₇, a₈, a₉, a₁₀, a₁₁, a₁₂, a₁₃, a₁₄,
      a₁₅, a₁₆, a₁₇, a₁₈, a₁₉, a₂₀, a₂₁]) :
    interruptCpuState m rsp =
      ⟨a₀, a₁, a₂, a₃, a₄, a₅, a₆, a₇, a₈, a₉, a₁₀, a₁₁, a₁₂, a₁₃, a₁₄, a₁₅, a₁₆, a₁₇, a₁₈,
        a₁₉, a₂₀, a₂₁⟩ := by
  have hfield : ∀ i < 22, ∀ v, (words m rsp 22)[i]? = some v →
      load64 m (rsp + BitVec.ofNat 64 (8 * i)) = v := by
    intro i hi v hv
    rw [getElem?_words m rsp hi] at hv
    exact Option.some.inj hv
  rw [h] at hfield
  simp only [interruptCpuState, InterruptCpuState.mk.injEq]
  refine ⟨?_, ?_, ?_, ?_, ?_, ?_, ?_, ?_, ?_, ?_, ?_, ?_, ?_, ?_, ?_, ?_, ?_, ?_, ?_, ?_, ?_, ?_⟩
  all_goals exact hfield _ (by decide) _ rfl

/-- **The fields `rbp` and `rsi` are exchanged**; every other field holds the
value of its name. -/
theorem interruptCpuState_call (vector : Fin 48) (ret : Word) (i : Interrupted) (s : Cpu) :
    seenState vector ret i s =
      { interruptedState vector i s with rbp := s.reg .rsi, rsi := s.reg .rbp } := by
  obtain ⟨hrdi, -, hframe⟩ := words_frame vector ret i s
  rw [seenState, hrdi]
  exact interruptCpuState_of_words hframe

/-- Exchanging two equal registers changes nothing. -/
theorem interruptedState_of_eq {vector : Fin 48} {i : Interrupted} {s : Cpu}
    (h : s.reg .rbp = s.reg .rsi) :
    { interruptedState vector i s with rbp := s.reg .rsi, rsi := s.reg .rbp } =
      interruptedState vector i s := by
  simp only [interruptedState, h]

/-- **The frame is read as it was written exactly when `rbp` and `rsi` are
equal**, and then only is every value of the register dump under its own
name. -/
theorem frame_agrees_iff (vector : Fin 48) (ret : Word) (i : Interrupted) (s : Cpu) :
    (seenState vector ret i s = interruptedState vector i s ↔ s.reg .rbp = s.reg .rsi) ∧
      (registerDump (seenState vector ret i s) = registerDump (interruptedState vector i s) ↔
        s.reg .rbp = s.reg .rsi) := by
  rw [interruptCpuState_call]
  constructor
  · constructor
    · intro hstate
      exact congrArg InterruptCpuState.rsi hstate
    · intro hsame
      exact interruptedState_of_eq hsame
  · constructor
    · intro hdump
      -- the fifth entry is labelled `rsi`
      have hrsi := congrArg (fun dump => (dump[4]?).map Prod.snd) hdump
      exact Option.some.inj hrsi
    · intro hsame
      rw [interruptedState_of_eq hsame]

/-- Code interrupted with `rbp = 0x7000` and every other register 0. -/
def framePointerSet : Cpu where
  reg r := if r = .rbp then 0x7000 else 0
  rsp := 0x8000
  mem _ := 0
  df := false

/-- A page fault (vector 14) taken there is dumped with `rsi: 0x7000`. -/
theorem pageFault_dump_exchanged :
    ("rsi", 0x7000) ∈ registerDump (seenState 14 0 ⟨0, 0, 0, 0, 0⟩ framePointerSet) ∧
      framePointerSet.reg .rsi = 0 ∧
      seenState 14 0 ⟨0, 0, 0, 0, 0⟩ framePointerSet ≠
        interruptedState 14 ⟨0, 0, 0, 0, 0⟩ framePointerSet := by
  refine ⟨?_, rfl, fun hsame => ?_⟩
  · rw [interruptCpuState_call]
    decide
  · have heq := (interruptCpuState_call 14 0 ⟨0, 0, 0, 0, 0⟩ framePointerSet).symm.trans hsame
    exact absurd (congrArg InterruptCpuState.rsi heq) (by decide)

end OsdevX64.Interrupt
