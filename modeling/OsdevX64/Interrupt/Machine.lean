import OsdevX64.Lib.ByteMemory

/-!
# The instructions of the interrupt entry path

The interrupt stubs of `platform.s` use a handful of instructions: pushes and
pops of general-purpose registers and immediates, moves from and to the stack
pointer, one call and one stack adjustment.  This file gives them a meaning on a
64-bit CPU with a flat little-endian memory whose addresses wrap.

Everything the stubs do goes through the stack, so the state is described by the
words above the stack pointer (`words`): a push puts one word in front
(`words_push`), a pop takes the first one off (`run_pops`).
-/

namespace OsdevX64.Interrupt

open ByteMemory

/-- A 64-bit machine word. -/
abbrev Word := BitVec 64

/-- The general-purpose registers other than the stack pointer. -/
inductive Reg
  | rax | rbx | rcx | rdx | rbp | rdi | rsi
  | r8 | r9 | r10 | r11 | r12 | r13 | r14 | r15
  deriving DecidableEq, Repr

/-- The part of the CPU state the entry path reads or writes. -/
structure Cpu where
  reg : Reg → Word
  rsp : Word
  mem : Memory Word
  /-- The direction flag of `rflags`. -/
  df : Bool

/-- The 64-bit word at an address. -/
def load64 (m : Memory Word) (a : Word) : Word := BitVec.ofNat 64 (loadLE m a 8)

/-- The `n` words from `a` upwards. -/
def words (m : Memory Word) (a : Word) : ℕ → List Word
  | 0 => []
  | n + 1 => load64 m a :: words m (a + 8) n

namespace Cpu

/-- `push`: the stack grows down by one word. -/
def push (s : Cpu) (v : Word) : Cpu :=
  { s with rsp := s.rsp - 8, mem := storeLE s.mem (s.rsp - 8) 8 v.toNat }

/-- `pop` into a register. -/
def pop (s : Cpu) (r : Reg) : Cpu :=
  { s with reg := Function.update s.reg r (load64 s.mem s.rsp), rsp := s.rsp + 8 }

@[simp] theorem push_reg (s : Cpu) (v : Word) : (s.push v).reg = s.reg := rfl
@[simp] theorem push_rsp (s : Cpu) (v : Word) : (s.push v).rsp = s.rsp - 8 := rfl
@[simp] theorem pop_mem (s : Cpu) (r : Reg) : (s.pop r).mem = s.mem := rfl
@[simp] theorem pop_rsp (s : Cpu) (r : Reg) : (s.pop r).rsp = s.rsp + 8 := rfl

end Cpu

/-- The instructions of the stubs.  A `call` names the address it returns to and
the effect of the C function it runs, from its entry to its `ret`. -/
inductive Insn
  | pushImm (n : Word)
  | push (r : Reg)
  | pop (r : Reg)
  | cld
  | movFromRsp (r : Reg)
  | movToRsp (r : Reg)
  | addRsp (n : Word)
  | call (ret : Word) (callee : Cpu → Cpu)

/-- One instruction. -/
def Insn.exec (s : Cpu) : Insn → Cpu
  | .pushImm n => s.push n
  | .push r => s.push (s.reg r)
  | .pop r => s.pop r
  | .cld => { s with df := false }
  | .movFromRsp r => { s with reg := Function.update s.reg r s.rsp }
  | .movToRsp r => { s with rsp := s.reg r }
  | .addRsp n => { s with rsp := s.rsp + n }
  | .call ret callee => callee (s.push ret)

/-- A straight-line program; a `jmp` is the concatenation of two programs. -/
def run (s : Cpu) (program : List Insn) : Cpu := program.foldl Insn.exec s

@[simp] theorem run_nil (s : Cpu) : run s [] = s := rfl

@[simp] theorem run_cons (s : Cpu) (i : Insn) (program : List Insn) :
    run s (i :: program) = run (i.exec s) program := rfl

theorem run_append (s : Cpu) (first second : List Insn) :
    run s (first ++ second) = run (run s first) second :=
  List.foldl_append

/-! ## Words above the stack pointer -/

@[simp] theorem length_words (m : Memory Word) (a : Word) (n : ℕ) :
    (words m a n).length = n := by
  induction n generalizing a with
  | zero => rfl
  | succ n ih => simp [words, ih]

theorem words_add (m : Memory Word) (a : Word) (n k : ℕ) :
    words m a (n + k) = words m a n ++ words m (a + BitVec.ofNat 64 (8 * n)) k := by
  induction n generalizing a with
  | zero => simp [words]
  | succ n ih =>
      have hbase : a + 8 + BitVec.ofNat 64 (8 * n) = a + BitVec.ofNat 64 (8 * (n + 1)) := by
        rw [BitVec.add_assoc, Nat.mul_succ, BitVec.ofNat_add, BitVec.add_comm 8]
        rfl
      rw [show n + 1 + k = (n + k) + 1 by omega, words, words, ih, hbase, List.cons_append]

/-- The words from `a` depend only on their own bytes. -/
theorem words_congr {m m' : Memory Word} {a : Word} {n : ℕ}
    (h : ∀ i < 8 * n, m (a + BitVec.ofNat 64 i) = m' (a + BitVec.ofNat 64 i)) :
    words m a n = words m' a n := by
  induction n generalizing a with
  | zero => rfl
  | succ n ih =>
      have hhead : loadLE m a 8 = loadLE m' a 8 :=
        loadLE_congr fun i hi => h i (by omega)
      have htail : words m (a + 8) n = words m' (a + 8) n := by
        refine ih fun i hi => ?_
        have hi8 : a + 8 + BitVec.ofNat 64 i = a + BitVec.ofNat 64 (8 + i) := by
          rw [BitVec.ofNat_add, BitVec.add_assoc]
          rfl
        rw [hi8]
        exact h (8 + i) (by omega)
      rw [words, words, htail, load64, load64, hhead]

/-- The word at an index is the one eight bytes an index further up. -/
theorem getElem?_words (m : Memory Word) (a : Word) {n i : ℕ} (hi : i < n) :
    (words m a n)[i]? = some (load64 m (a + BitVec.ofNat 64 (8 * i))) := by
  induction i generalizing a n with
  | zero =>
      obtain ⟨n, rfl⟩ := Nat.exists_eq_add_of_lt hi
      simp [words]
  | succ i ih =>
      obtain ⟨n, rfl⟩ := Nat.exists_eq_add_of_lt hi
      have hbase : a + 8 + BitVec.ofNat 64 (8 * i) = a + BitVec.ofNat 64 (8 * (i + 1)) := by
        rw [BitVec.add_assoc, Nat.mul_succ, BitVec.ofNat_add, BitVec.add_comm 8]
        rfl
      rw [words, List.getElem?_cons_succ, ih (a + 8) (by omega), hbase]

/-- A stored word is loaded back. -/
theorem load64_storeLE_same (m : Memory Word) (a v : Word) :
    load64 (storeLE m a 8 v.toNat) a = v := by
  rw [load64, loadLE_storeLE_same (offsetsDistinct_bitVec (by omega))]
  refine BitVec.eq_of_toNat_eq ?_
  have := v.isLt
  rw [BitVec.toNat_ofNat]
  omega

/-- A push leaves the words above the stack pointer alone, as long as they do
not fill the address space. -/
theorem words_push_above (s : Cpu) (v : Word) {n : ℕ} (hn : 8 * (n + 1) ≤ 2 ^ 64) :
    words (s.push v).mem s.rsp n = words s.mem s.rsp n := by
  refine words_congr fun i hi => storeLE_of_ne fun j hj heq => ?_
  have hback : s.rsp - 8 + 8 = s.rsp := BitVec.sub_add_cancel s.rsp 8
  have hsame : s.rsp - 8 + ((8 + i : ℕ) : Word) = s.rsp - 8 + ((j : ℕ) : Word) := by
    rw [← heq]
    conv_rhs => rw [← hback]
    rw [BitVec.add_assoc, BitVec.natCast_eq_ofNat, BitVec.ofNat_add]
    rfl
  have := offsetsDistinct_bitVec (n := 8 * (n + 1)) hn _ _ _ (by omega) (by omega) hsame
  omega

/-- **A push puts one word in front** of the words above the stack pointer. -/
theorem words_push (s : Cpu) (v : Word) {n : ℕ} (hn : 8 * (n + 1) ≤ 2 ^ 64) :
    words (s.push v).mem (s.push v).rsp (n + 1) = v :: words s.mem s.rsp n := by
  have hback : s.rsp - 8 + 8 = s.rsp := BitVec.sub_add_cancel s.rsp 8
  have habove := words_push_above s v hn
  rw [Cpu.push] at habove
  rw [Cpu.push, words, load64_storeLE_same, hback, habove]

/-! ## Blocks of pushes and pops -/

/-- **A block of pushes** leaves the registers alone and puts their values in
front of the stack words, the last one pushed first. -/
theorem run_pushes (rs : List Reg) (s : Cpu) {n : ℕ} (hn : 8 * (rs.length + n) ≤ 2 ^ 64) :
    (run s (rs.map .push)).reg = s.reg ∧
      words (run s (rs.map .push)).mem (run s (rs.map .push)).rsp (rs.length + n) =
        (rs.map s.reg).reverse ++ words s.mem s.rsp n := by
  induction rs generalizing s n with
  | nil => simp
  | cons r rs ih =>
      simp only [List.length_cons] at hn
      obtain ⟨hreg, hwords⟩ := ih (s.push (s.reg r)) (n := n + 1) (by omega)
      refine ⟨hreg, ?_⟩
      have hfront := words_push s (s.reg r) (n := n) (by omega)
      simp only [List.map_cons, run_cons, Insn.exec, List.length_cons, List.reverse_cons,
        List.append_assoc, List.singleton_append]
      rw [show rs.length + 1 + n = rs.length + (n + 1) by omega, hwords, Cpu.push_reg, hfront]

/-- Assign the values one after the other to the registers. -/
def popInto : List Reg → List Word → (Reg → Word) → Reg → Word
  | r :: rs, v :: vs, reg => popInto rs vs (Function.update reg r v)
  | _, _, reg => reg

/-- **A block of pops** assigns the words above the stack pointer in order. -/
theorem run_pops (rs : List Reg) (s : Cpu) :
    (run s (rs.map .pop)).reg = popInto rs (words s.mem s.rsp rs.length) s.reg ∧
      (run s (rs.map .pop)).mem = s.mem ∧
      (run s (rs.map .pop)).rsp = s.rsp + BitVec.ofNat 64 (8 * rs.length) := by
  induction rs generalizing s with
  | nil => simp [popInto]
  | cons r rs ih =>
      obtain ⟨hreg, hmem, hrsp⟩ := ih (s.pop r)
      refine ⟨hreg, hmem, ?_⟩
      rw [List.map_cons, run_cons, Insn.exec, hrsp, Cpu.pop_rsp, List.length_cons,
        Nat.mul_succ, BitVec.ofNat_add, BitVec.add_assoc, BitVec.add_comm 8]
      rfl

end OsdevX64.Interrupt
