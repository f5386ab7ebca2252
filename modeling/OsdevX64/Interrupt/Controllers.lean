import OsdevX64.Lib.Latch
import Mathlib.Data.BitVec
import Mathlib.Data.List.Find
import Mathlib.Tactic.IntervalCases

/-!
# The interrupt controllers

Two 8259A, the second on line 2 of the first.  A controller latches the edges of its eight
lines and asks for the CPU with the most urgent one that is neither masked nor behind one
that is still in service; when the CPU acknowledges, that one comes into service, and it
stays there until the end of the interrupt is reported.

`idt_init` sets the two up with port writes, and `isr_handler` reports the end of every
interrupt of theirs, to the second also when it was one of its lines.  **Between two
interrupts nothing is in service, and the lines wait as in a latch with the priorities of
the PC** (`Settled.raise`, `Settled.acknowledge`).
-/

namespace OsdevX64.Interrupt

/-! ## A controller -/

/-- What the next byte on the data port is. -/
inductive PicState
  | icw2
  | icw3
  | icw4
  | ready
  deriving DecidableEq, Repr

/-- An 8259A. -/
structure Pic where
  state : PicState
  /-- ICW2: the vector of line 0. -/
  base : BitVec 8
  /-- ICW3: the lines with a second controller, or the line that this one is on. -/
  cascade : BitVec 8
  mask : BitVec 8
  request : ℕ → Bool
  service : ℕ → Bool

/-- The most urgent request, unless one as urgent is in service. -/
def Pic.highest (p : Pic) : Option ℕ :=
  ((List.range 8).find? fun i => p.request i && !p.mask.getLsbD i).filter fun i =>
    (List.range (i + 1)).all fun j => !p.service j

/-- A request comes into service. -/
def Pic.start (p : Pic) (i : ℕ) : Pic :=
  { p with
    request := Function.update p.request i false
    service := Function.update p.service i true }

/-- The end of an interrupt that is not named: of the most urgent one in service. -/
def Pic.endOfInterrupt (p : Pic) : Pic :=
  match (List.range 8).find? p.service with
  | none => p
  | some i => { p with service := Function.update p.service i false }

/-- A byte on the command port: ICW1 for two controllers and four words, or the end of an
interrupt; the other commands are left out. -/
def Pic.command (p : Pic) (value : BitVec 8) : Pic :=
  if value = 0x11 then { p with state := .icw2, mask := 0, request := fun _ => false }
  else if value = 0x20 then p.endOfInterrupt
  else p

/-- A byte on the data port. -/
def Pic.data (p : Pic) (value : BitVec 8) : Pic :=
  match p.state with
  | .icw2 => { p with state := .icw3, base := value &&& 0xF8 }
  | .icw3 => { p with state := .icw4, cascade := value }
  | .icw4 => { p with state := .ready }
  | .ready => { p with mask := value }

/-! ## Both -/

/-- The controllers at `0x20` and at `0xA0`. -/
structure Controllers where
  master : Pic
  slave : Pic

/-- `outb`. -/
def Controllers.outb (c : Controllers) (port : ℕ) (value : BitVec 8) : Controllers :=
  if port = 0x20 then { c with master := c.master.command value }
  else if port = 0x21 then { c with master := c.master.data value }
  else if port = 0xA0 then { c with slave := c.slave.command value }
  else if port = 0xA1 then { c with slave := c.slave.data value }
  else c

/-- Some writes, one after the other. -/
def Controllers.writes (c : Controllers) (ports : List (ℕ × BitVec 8)) : Controllers :=
  ports.foldl (fun c w => c.outb w.1 w.2) c

/-- A device raises its line. -/
def Controllers.raise (c : Controllers) (line : ℕ) : Controllers :=
  if line < 8 then
    { c with master := { c.master with request := Function.update c.master.request line true } }
  else
    { c with slave := { c.slave with request := Function.update c.slave.request (line - 8) true } }

/-- The first controller, with what the second one has to say on line 2. -/
def Controllers.wired (c : Controllers) : Pic :=
  { c.master with request := Function.update c.master.request 2 c.slave.highest.isSome }

/-- The CPU acknowledges an interrupt: its vector.  On a line with a second controller that
one gives the vector. -/
def Controllers.acknowledge (c : Controllers) : Option (ℕ × Controllers) :=
  c.wired.highest.bind fun i =>
    if c.master.cascade.getLsbD i then
      if c.slave.cascade.toNat % 8 = i then
        c.slave.highest.map fun j =>
          (c.slave.base.toNat + j, { master := c.master.start i, slave := c.slave.start j })
      else none
    else some (c.master.base.toNat + i, { c with master := c.master.start i })

/-! ## The source -/

/-- The port writes of `idt_init`. -/
def idtInitPorts : List (ℕ × BitVec 8) :=
  [(0x20, 0x11), (0xA0, 0x11), (0x21, 0x20), (0xA1, 0x28), (0x21, 0x04), (0xA1, 0x02),
    (0x21, 0x01), (0xA1, 0x01), (0x21, 0x00), (0xA1, 0x00)]

/-- The port writes of `isr_handler`. -/
def isrHandlerPorts (isrNumber : ℕ) : List (ℕ × BitVec 8) :=
  if 32 ≤ isrNumber ∧ isrNumber ≤ 47 then
    (if isrNumber ≥ 40 then [(0xA0, 0x20)] else []) ++ [(0x20, 0x20)]
  else []

/-! ## Settled controllers -/

/-- The lines of devices, the most urgent first. -/
def priority : List ℕ := [0, 1] ++ ((List.range 8).map (· + 8) ++ [3, 4, 5, 6, 7])

/-- Nothing is in service. -/
structure Controllers.Idle (c : Controllers) : Prop where
  master : c.master.service = fun _ => false
  slave : c.slave.service = fun _ => false

/-- **The controllers between two interrupts**, when they are set up and the lines of
`pending` wait. -/
structure Settled (c : Controllers) (pending : ℕ → Bool) : Prop where
  idle : c.Idle
  base : c.master.base = 0x20 ∧ c.slave.base = 0x28
  cascade : c.master.cascade = 0x04 ∧ c.slave.cascade = 0x02
  mask : c.master.mask = 0 ∧ c.slave.mask = 0
  direct : ∀ i, i ≠ 2 → i < 8 → c.master.request i = pending i
  cascaded : ∀ i < 8, c.slave.request i = pending (i + 8)

/-- `idt_init` sets the controllers up. -/
theorem settled_idtInit {c : Controllers} (h : c.Idle) :
    Settled (c.writes idtInitPorts) fun _ => false := by
  obtain ⟨⟨_, _, _, _, _, _⟩, ⟨_, _, _, _, _, _⟩⟩ := c
  exact ⟨⟨h.master, h.slave⟩, ⟨rfl, rfl⟩, ⟨rfl, rfl⟩, ⟨rfl, rfl⟩, fun _ _ _ => rfl,
    fun _ _ => rfl⟩

theorem mem_priority_iff {n : ℕ} : n ∈ priority ↔ n < 16 ∧ n ≠ 2 := by
  constructor
  · intro hn
    revert n
    decide
  · rintro ⟨hn, htwo⟩
    interval_cases n <;> first | exact absurd rfl htwo | decide

theorem priority_nodup : priority.Nodup := by decide

/-- What is asked for when nothing is in service or masked. -/
theorem highest_of_idle {p : Pic} (hmask : p.mask = 0) (hservice : p.service = fun _ => false) :
    p.highest = (List.range 8).find? p.request := by
  unfold Pic.highest
  rw [hmask, hservice]
  have hall (i : ℕ) : ((List.range (i + 1)).all fun _ => true) = true :=
    List.all_eq_true.mpr fun _ _ => rfl
  have hbit (i : ℕ) : (0 : BitVec 8).getLsbD i = false := BitVec.getLsbD_zero
  simp only [hbit, Bool.not_false, Bool.and_true]
  cases (List.range 8).find? p.request with
  | none => rfl
  | some i => rw [Option.filter_some, if_pos (hall i)]

/-- A request that starts ends when the end of an interrupt is reported. -/
theorem command_start {p : Pic} (hservice : p.service = fun _ => false) {i : ℕ} (hi : i < 8) :
    (p.start i).command 0x20 = { p with request := Function.update p.request i false } := by
  have hfirst : (List.range 8).find? (p.start i).service = some i := by
    rw [List.find?_range_eq_some]
    unfold Pic.start
    rw [hservice]
    refine ⟨Function.update_self i true fun _ => false, List.mem_range.mpr hi, fun j hj => ?_⟩
    show (!Function.update (fun _ => false) i true j) = true
    rw [Function.update_of_ne (Nat.ne_of_lt hj)]
    rfl
  have hended : (p.start i).command 0x20 = (p.start i).endOfInterrupt := rfl
  rw [hended, Pic.endOfInterrupt, hfirst]
  unfold Pic.start
  dsimp only
  rw [Function.update_idem, hservice, Function.update_eq_self]

/-- The same value under two names for one place. -/
theorem update_eq_update {f g : ℕ → Bool} {i j a b : ℕ} (hplace : i = j ↔ a = b) (h : f i = g a)
    (v : Bool) : Function.update f j v i = Function.update g b v a := by
  by_cases heq : i = j
  · rw [heq, hplace.mp heq, Function.update_self, Function.update_self]
  · rw [Function.update_of_ne heq, Function.update_of_ne (mt hplace.mpr heq), h]

section

variable {c : Controllers} {pending : ℕ → Bool}

/-- A line of the first controller changes. -/
theorem Settled.set_direct (h : Settled c pending) {n : ℕ} (hn : n < 8) (v : Bool) :
    Settled { c with master := { c.master with request := Function.update c.master.request n v } }
      (Function.update pending n v) := by
  refine ⟨⟨h.idle.master, h.idle.slave⟩, h.base, h.cascade, h.mask, ?_, ?_⟩
  · intro i hi hi8
    exact update_eq_update Iff.rfl (h.direct i hi hi8) v
  · intro i hi
    rw [Function.update_of_ne (by omega)]
    exact h.cascaded i hi

/-- A line of the second controller changes. -/
theorem Settled.set_cascaded (h : Settled c pending) {j : ℕ} (v : Bool) :
    Settled { c with slave := { c.slave with request := Function.update c.slave.request j v } }
      (Function.update pending (j + 8) v) := by
  refine ⟨⟨h.idle.master, h.idle.slave⟩, h.base, h.cascade, h.mask, ?_, ?_⟩
  · intro i hi hi8
    rw [Function.update_of_ne (by omega)]
    exact h.direct i hi hi8
  · intro i hi
    exact update_eq_update (by omega) (h.cascaded i hi) v

/-- The latch of line 2 does not matter. -/
theorem Settled.set_two (h : Settled c pending) (v : Bool) :
    Settled { c with master := { c.master with request := Function.update c.master.request 2 v } }
      pending := by
  refine ⟨⟨h.idle.master, h.idle.slave⟩, h.base, h.cascade, h.mask, ?_, h.cascaded⟩
  intro i hi hi8
  rw [← h.direct i hi hi8]
  exact Function.update_of_ne hi ..

/-- **A line that is raised waits.** -/
theorem Settled.raise (h : Settled c pending) (n : ℕ) :
    Settled (c.raise n) (Function.update pending n true) := by
  unfold Controllers.raise
  by_cases hmaster : n < 8
  · rw [if_pos hmaster]
    exact h.set_direct hmaster true
  · rw [if_neg hmaster]
    have hline : n - 8 + 8 = n := Nat.sub_add_cancel (Nat.le_of_not_lt hmaster)
    have hset := h.set_cascaded (j := n - 8) true
    rwa [hline] at hset

theorem Settled.slave_highest (h : Settled c pending) :
    c.slave.highest = (List.range 8).find? (pending ∘ (· + 8)) := by
  rw [highest_of_idle h.mask.2 h.idle.slave]
  exact List.find?_congr fun i hi => h.cascaded i (List.mem_range.mp hi)

/-- The second controller comes in where line 2 is. -/
theorem Settled.wired_highest (h : Settled c pending) :
    c.wired.highest = ([0, 1].find? pending).or
      ((if c.slave.highest.isSome then some 2 else none).or
        ([3, 4, 5, 6, 7].find? pending)) := by
  have hmask : c.wired.mask = 0 := h.mask.1
  have hservice : c.wired.service = fun _ => false := h.idle.master
  have hdirect (i : ℕ) (hi : i ≠ 2) (hi8 : i < 8) : c.wired.request i = pending i := by
    rw [← h.direct i hi hi8]
    exact Function.update_of_ne hi ..
  have htwo : c.wired.request 2 = c.slave.highest.isSome := by
    show Function.update c.master.request 2 c.slave.highest.isSome 2 = _
    rw [Function.update_self]
  rw [highest_of_idle hmask hservice,
    show List.range 8 = [0, 1] ++ ([2] ++ [3, 4, 5, 6, 7]) by decide, List.find?_append,
    List.find?_append]
  have hlow : ∀ i ∈ [0, 1], i ≠ 2 ∧ i < 8 := by decide
  have hhigh : ∀ i ∈ [3, 4, 5, 6, 7], i ≠ 2 ∧ i < 8 := by decide
  congr 1
  · exact List.find?_congr fun i hi => hdirect i (hlow i hi).1 (hlow i hi).2
  · congr 1
    · rw [List.find?_singleton, htwo]
    · exact List.find?_congr fun i hi => hdirect i (hhigh i hi).1 (hhigh i hi).2

theorem find?_priority (pending : ℕ → Bool) :
    priority.find? pending = ([0, 1].find? pending).or
      ((((List.range 8).find? (pending ∘ (· + 8))).map (· + 8)).or
        ([3, 4, 5, 6, 7].find? pending)) := by
  unfold priority
  rw [List.find?_append, List.find?_append, List.find?_map]

/-- The first controller answers for its own lines. -/
theorem Settled.acknowledge_direct (h : Settled c pending) {n : ℕ} (htwo : n ≠ 2) (hn : n < 8)
    (hwired : c.wired.highest = some n) :
    ∃ c', c.acknowledge = some (32 + n, c') ∧
      Settled (c'.writes (isrHandlerPorts (32 + n))) (Function.update pending n false) := by
  have hlines : ∀ i < 8, i ≠ 2 → (0x04 : BitVec 8).getLsbD i = false := by decide
  have hbit : c.master.cascade.getLsbD n = false := by
    rw [h.cascade.1]
    exact hlines n hn htwo
  have hports : isrHandlerPorts (32 + n) = [(0x20, 0x20)] := by
    unfold isrHandlerPorts
    rw [if_pos (by omega), if_neg (by omega), List.nil_append]
  refine ⟨{ c with master := c.master.start n }, ?_, ?_⟩
  · unfold Controllers.acknowledge
    rw [hwired, Option.bind_some, hbit, h.base.1]
    rfl
  · have hended : Controllers.writes { c with master := c.master.start n } [(0x20, 0x20)] =
        { c with master := (c.master.start n).command 0x20 } := rfl
    rw [hports, hended, command_start h.idle.master hn]
    exact h.set_direct hn false

/-- The second controller answers for its lines, and both hear of the end. -/
theorem Settled.acknowledge_cascaded (h : Settled c pending) {j : ℕ} (hj : j < 8)
    (hwired : c.wired.highest = some 2) (hslave : c.slave.highest = some j) :
    ∃ c', c.acknowledge = some (32 + (j + 8), c') ∧
      Settled (c'.writes (isrHandlerPorts (32 + (j + 8))))
        (Function.update pending (j + 8) false) := by
  have hports : isrHandlerPorts (32 + (j + 8)) = [(0xA0, 0x20), (0x20, 0x20)] := by
    unfold isrHandlerPorts
    rw [if_pos (by omega), if_pos (by omega)]
    rfl
  refine ⟨{ master := c.master.start 2, slave := c.slave.start j }, ?_, ?_⟩
  · have hbit : (0x04 : BitVec 8).getLsbD 2 = true := by decide
    have hline : (0x02 : BitVec 8).toNat % 8 = 2 := by decide
    have hvector : (0x28 : BitVec 8).toNat + j = 32 + (j + 8) := by
      show 40 + j = _
      omega
    unfold Controllers.acknowledge
    rw [hwired, Option.bind_some, h.cascade.1, h.cascade.2, if_pos hbit, if_pos hline, hslave,
      Option.map_some, h.base.2, hvector]
  · have hended : Controllers.writes { master := c.master.start 2, slave := c.slave.start j }
        [(0xA0, 0x20), (0x20, 0x20)] =
          { master := (c.master.start 2).command 0x20, slave := (c.slave.start j).command 0x20 } :=
      rfl
    rw [hports, hended, command_start h.idle.master (by decide), command_start h.idle.slave hj]
    exact (h.set_two false).set_cascaded false

/-- The CPU is not asked for when no line waits. -/
theorem Settled.acknowledge_none (h : Settled c pending) (hfind : priority.find? pending = none) :
    c.acknowledge = none := by
  rw [find?_priority, Option.or_eq_none_iff, Option.or_eq_none_iff, Option.map_eq_none_iff,
    ← h.slave_highest] at hfind
  obtain ⟨hlow, hslave, hhigh⟩ := hfind
  unfold Controllers.acknowledge
  rw [h.wired_highest, hlow, hslave, hhigh]
  rfl

/-- **The line that is the most urgent of those that wait is acknowledged**, under the
vector 32 and its number, and `isr_handler` leaves nothing in service. -/
theorem Settled.acknowledge (h : Settled c pending) {n : ℕ}
    (hfind : priority.find? pending = some n) :
    ∃ c', c.acknowledge = some (32 + n, c') ∧
      Settled (c'.writes (isrHandlerPorts (32 + n))) (Function.update pending n false) := by
  have hwired := h.wired_highest
  rw [find?_priority, ← h.slave_highest] at hfind
  cases hlow : [0, 1].find? pending with
  | some i =>
      rw [hlow, Option.some_or] at hfind hwired
      obtain rfl := Option.some_inj.mp hfind
      have hlines : ∀ i ∈ [0, 1], i ≠ 2 ∧ i < 8 := by decide
      obtain ⟨htwo, hi⟩ := hlines i (List.mem_of_find?_eq_some hlow)
      exact h.acknowledge_direct htwo hi hwired
  | none =>
      rw [hlow, Option.none_or] at hfind hwired
      cases hslave : c.slave.highest with
      | some j =>
          rw [hslave] at hfind hwired
          obtain rfl := Option.some_inj.mp hfind
          have hj : j < 8 := by
            rw [h.slave_highest] at hslave
            exact List.mem_range.mp (List.mem_of_find?_eq_some hslave)
          exact h.acknowledge_cascaded hj hwired hslave
      | none =>
          rw [hslave, Option.map_none, Option.none_or] at hfind
          rw [hslave] at hwired
          have hlines : ∀ i ∈ [3, 4, 5, 6, 7], i ≠ 2 ∧ i < 8 := by decide
          obtain ⟨htwo, hi⟩ := hlines n (List.mem_of_find?_eq_some hfind)
          exact h.acknowledge_direct htwo hi (hwired.trans hfind)

end

end OsdevX64.Interrupt
