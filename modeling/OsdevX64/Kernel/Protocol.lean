import OsdevX64.Kernel.Dispatch
import Mathlib.Data.List.Nodup

/-!
# The signal protocol

What a module's handler is called with, over every run of interrupts.  Before
the return key the kernel is `Waiting`: nothing is delivered, and the timer is
not even registered.  The one key event that starts the modules switches over
all of `irq_handlers`, `key_event` and `module_cur_handler` before the next
interrupt; from then on the kernel is `Running`, and its trace is the INITs
followed by **the stream of arrivals, for the handler started last**.

Handlers are told apart by their addresses.  Two modules may share one, and a
handler at address 0 is called with INIT and then taken for none
(`addresses_matter`); the protocol holds where the addresses are distinct and
the last one is not null (`signals_in_order`).
-/

namespace OsdevX64.Kernel

open Loader ByteMemory

/-- The handlers that `module_init` starts. -/
def handlers (boot : Boot) : List (BitVec 64) := Loader.moduleInit boot.mem boot.memmap

/-- The signals that a handler was called with. -/
def received (trace : List Delivery) (handler : BitVec 64) : List Signal :=
  (trace.filter fun d => d.handler = handler).map Delivery.signal

/-! ## Arrivals -/

/-- The signals an interrupt stands for. -/
def Interrupt.signals (d : Decoder) : Interrupt → List Signal
  | .byte scancode => (decode d scancode).2.toList.map .keyboard
  | .timer => [.timer]

/-- The decoder after an interrupt. -/
def Interrupt.after (d : Decoder) : Interrupt → Decoder
  | .byte scancode => (decode d scancode).1
  | .timer => d

/-- The decoded key events and the timer ticks of a run, in the order in which
they arrive. -/
def arrivals (d : Decoder) : List Interrupt → List Signal
  | [] => []
  | i :: interrupts => i.signals d ++ arrivals (i.after d) interrupts

theorem init_notMem_signals (d : Decoder) (i : Interrupt) : .init ∉ i.signals d := by
  cases i with
  | timer => exact fun h => Signal.noConfusion (List.mem_singleton.mp h)
  | byte scancode =>
      intro h
      obtain ⟨e, -, he⟩ := List.mem_map.mp h
      cases he

/-! ## The phases -/

/-- The handler that is current once the modules are started, 0 if there is none. -/
def current (boot : Boot) : BitVec 64 := (handlers boot).getLast?.getD 0

/-- Signals for the handler started last, if there is one. -/
def deliveries (boot : Boot) (signals : List Signal) : List Delivery :=
  match (handlers boot).getLast? with
  | none => []
  | some last => signals.map (⟨last, ·⟩)

/-- The kernel waits for the return key. -/
structure Waiting (k : System) : Prop where
  timer : k.irqHandlers 0 = none
  keyboard : k.irqHandlers 1 = some .keyboardIrqHandler
  event : k.keyEvent = some .bootAnyKey
  cur : k.moduleCurHandler = 0
  trace : k.trace = []

/-- The modules are started, and `signals` were delivered to the last of them. -/
structure Running (boot : Boot) (signals : List Signal) (k : System) : Prop where
  timer : k.irqHandlers 0 = some .timerEvent
  keyboard : k.irqHandlers 1 = some .keyboardIrqHandler
  event : k.keyEvent = some .moduleKey
  cur : k.moduleCurHandler = current boot
  trace : k.trace = (handlers boot).map (⟨·, .init⟩) ++ deliveries boot signals

theorem interrupt_byte {k : System} (h : k.irqHandlers 1 = some .keyboardIrqHandler) (boot : Boot)
    (scancode : Byte) : k.interrupt boot (.byte scancode) = k.keyboardIrqHandler boot scancode := by
  simp only [System.interrupt, System.isrHandler, Nat.reduceLeDiff, Nat.reduceSub, and_self,
    if_true, h]

theorem interrupt_timer (k : System) (boot : Boot) :
    k.interrupt boot .timer = match k.irqHandlers 0 with
      | none => k
      | some .keyboardIrqHandler => k.keyboardIrqHandler boot 0
      | some .timerEvent => k.timerEvent := rfl

theorem dispatchKey_bootAnyKey {k : System} (h : k.keyEvent = some .bootAnyKey) (boot : Boot)
    (e : ModuleKeyEvent) : k.dispatchKey boot e = k.bootAnyKey boot e := by
  unfold System.dispatchKey
  rw [h]

theorem dispatchKey_moduleKey {k : System} (h : k.keyEvent = some .moduleKey) (boot : Boot)
    (e : ModuleKeyEvent) : k.dispatchKey boot e = k.signalCurrent (.keyboard e) := by
  unfold System.dispatchKey
  rw [h]
  rfl

theorem Waiting.setDecoder {k : System} (h : Waiting k) (d : Decoder) : Waiting (k.setDecoder d) :=
  ⟨h.timer, h.keyboard, h.event, h.cur, h.trace⟩

theorem Running.setDecoder {boot : Boot} {signals : List Signal} {k : System}
    (h : Running boot signals k) (d : Decoder) : Running boot signals (k.setDecoder d) :=
  ⟨h.timer, h.keyboard, h.event, h.cur, h.trace⟩

/-- `module_init` starts the modules one after the other. -/
theorem foldl_startModule (k : System) (started : List (BitVec 64)) :
    started.foldl System.startModule k =
      { k with
        moduleCurHandler := started.getLast?.getD k.moduleCurHandler
        trace := k.trace ++ started.map (⟨·, .init⟩) } := by
  induction started generalizing k with
  | nil => rw [List.map_nil, List.append_nil]; rfl
  | cons handler started ih =>
      rw [List.foldl_cons, ih]
      unfold System.startModule System.signal
      dsimp only
      rw [List.map_cons, List.append_assoc, List.singleton_append, List.getLast?_cons,
        Option.getD_some]

theorem deliveries_nil (boot : Boot) : deliveries boot [] = [] := by
  unfold deliveries
  split <;> rfl

theorem deliveries_append (boot : Boot) (signals more : List Signal) :
    deliveries boot (signals ++ more) = deliveries boot signals ++ deliveries boot more := by
  unfold deliveries
  split
  · rfl
  · exact List.map_append

/-- The key event that starts the modules. -/
theorem Waiting.boot {boot : Boot} {k : System} (h : Waiting k) (e : ModuleKeyEvent)
    (he : e.codepoint = 0x0A) : Running boot [] (k.bootAnyKey boot e) := by
  unfold System.bootAnyKey System.moduleInit
  rw [if_pos he, foldl_startModule]
  refine ⟨?_, ?_, rfl, ?_, ?_⟩
  · show Function.update k.irqHandlers 0 (some IrqHandler.timerEvent) 0 = _
    exact Function.update_self ..
  · show Function.update k.irqHandlers 0 (some IrqHandler.timerEvent) 1 = _
    exact (Function.update_of_ne Nat.one_ne_zero ..).trans h.keyboard
  · show (handlers boot).getLast?.getD k.moduleCurHandler = current boot
    rw [h.cur, current]
  · show k.trace ++ (handlers boot).map (⟨·, .init⟩) = _
    rw [h.trace, List.nil_append, deliveries_nil, List.append_nil]

/-! ## One interrupt -/

/-- While it waits, the kernel delivers nothing, until it has started the modules. -/
theorem Waiting.interrupt {k : System} (h : Waiting k) (boot : Boot) (i : Interrupt) :
    Waiting (k.interrupt boot i) ∨ Running boot [] (k.interrupt boot i) := by
  cases i with
  | timer =>
      rw [interrupt_timer, h.timer]
      exact Or.inl h
  | byte scancode =>
      rw [interrupt_byte h.keyboard]
      unfold System.keyboardIrqHandler
      generalize decode k.decoder scancode = result
      obtain ⟨d, _ | e⟩ := result
      · exact Or.inl (h.setDecoder d)
      · dsimp only
        rw [dispatchKey_bootAnyKey (h.setDecoder d).event]
        by_cases he : e.codepoint = 0x0A
        · exact Or.inr ((h.setDecoder d).boot e he)
        -- any other key: nothing is switched over
        · rw [System.bootAnyKey, if_neg he]
          exact Or.inl (h.setDecoder d)

theorem Running.signalCurrent {boot : Boot} (hnull : (handlers boot).getLast? ≠ some 0)
    {signals : List Signal} {k : System} (h : Running boot signals k) (s : Signal) :
    Running boot (signals ++ [s]) (k.signalCurrent s) := by
  have hcur := h.cur
  have hone : (k.signalCurrent s).trace = k.trace ++ deliveries boot [s] := by
    unfold System.signalCurrent deliveries
    unfold current at hcur
    cases hlast : (handlers boot).getLast? with
    | none =>
        rw [hlast, Option.getD_none] at hcur
        -- no module was started, and the handler is still null
        rw [if_neg (not_not_intro hcur), List.append_nil]
    | some last =>
        rw [hlast, Option.getD_some] at hcur
        have hne : k.moduleCurHandler ≠ 0 := by
          rw [hcur]
          exact fun h0 => hnull (by rw [hlast, h0])
        rw [if_pos hne, hcur]
        rfl
  have hrest : (k.signalCurrent s).irqHandlers = k.irqHandlers ∧
      (k.signalCurrent s).keyEvent = k.keyEvent ∧
      (k.signalCurrent s).moduleCurHandler = k.moduleCurHandler := by
    unfold System.signalCurrent
    split_ifs
    · exact ⟨rfl, rfl, rfl⟩
    · exact ⟨rfl, rfl, rfl⟩
  obtain ⟨hirq, hevent, hhandler⟩ := hrest
  refine ⟨hirq ▸ h.timer, hirq ▸ h.keyboard, hevent.trans h.event, hhandler.trans hcur, ?_⟩
  rw [hone, h.trace, deliveries_append, List.append_assoc]

/-- **What arrives is delivered**, once and in its place. -/
theorem Running.interrupt {boot : Boot} (hnull : (handlers boot).getLast? ≠ some 0)
    {signals : List Signal} {k : System} (h : Running boot signals k) (i : Interrupt) :
    Running boot (signals ++ i.signals k.decoder) (k.interrupt boot i) := by
  cases i with
  | timer =>
      rw [interrupt_timer, h.timer]
      exact h.signalCurrent hnull .timer
  | byte scancode =>
      rw [interrupt_byte h.keyboard]
      unfold System.keyboardIrqHandler
      rw [Interrupt.signals]
      generalize decode k.decoder scancode = result
      obtain ⟨d, _ | e⟩ := result
      · dsimp only
        rw [Option.toList_none, List.map_nil, List.append_nil]
        exact h.setDecoder d
      · dsimp only
        rw [dispatchKey_moduleKey (h.setDecoder d).event]
        exact (h.setDecoder d).signalCurrent hnull (.keyboard e)

theorem signalCurrent_decoder (k : System) (s : Signal) :
    (k.signalCurrent s).decoder = k.decoder := by
  unfold System.signalCurrent
  split_ifs
  · rfl
  · rfl

theorem Running.decoder {boot : Boot} {signals : List Signal} {k : System}
    (h : Running boot signals k) (i : Interrupt) :
    (k.interrupt boot i).decoder = i.after k.decoder := by
  cases i with
  | timer =>
      rw [interrupt_timer, h.timer]
      exact signalCurrent_decoder k .timer
  | byte scancode =>
      rw [interrupt_byte h.keyboard]
      unfold System.keyboardIrqHandler
      rw [Interrupt.after]
      generalize decode k.decoder scancode = result
      obtain ⟨d, _ | e⟩ := result
      · rfl
      · dsimp only
        rw [dispatchKey_moduleKey (h.setDecoder d).event]
        exact signalCurrent_decoder (k.setDecoder d) (.keyboard e)

/-! ## Runs -/

/-- **From its start on the kernel delivers the stream of arrivals.** -/
theorem Running.run {boot : Boot} (hnull : (handlers boot).getLast? ≠ some 0)
    {signals : List Signal} {k : System} (h : Running boot signals k)
    (interrupts : List Interrupt) :
    Running boot (signals ++ arrivals k.decoder interrupts)
      (interrupts.foldl (System.interrupt boot) k) := by
  induction interrupts generalizing signals k with
  | nil =>
      rw [arrivals, List.append_nil]
      exact h
  | cons i interrupts ih =>
      rw [arrivals, ← List.append_assoc, ← h.decoder i]
      exact ih (h.interrupt hnull i)

theorem booted_waiting (d : Decoder) : Waiting (System.booted d) := ⟨rfl, rfl, rfl, rfl, rfl⟩

/-- A run ends in one of the two phases, and INIT is not among the arrivals. -/
theorem run_phase {boot : Boot} (hnull : (handlers boot).getLast? ≠ some 0) (d : Decoder)
    (interrupts : List Interrupt) : Waiting (System.run boot d interrupts) ∨
      ∃ signals, Running boot signals (System.run boot d interrupts) ∧ .init ∉ signals := by
  unfold System.run
  refine List.foldlRecOn (motive := fun k => Waiting k ∨
    ∃ signals, Running boot signals k ∧ .init ∉ signals) _ _ (Or.inl (booted_waiting d)) ?_
  rintro k (hk | ⟨signals, hk, hinit⟩) i -
  · rcases hk.interrupt boot i with hwait | hrun
    · exact Or.inl hwait
    · exact Or.inr ⟨[], hrun, List.not_mem_nil⟩
  · refine Or.inr ⟨_, hk.interrupt hnull i, ?_⟩
    rw [List.mem_append]
    exact fun h => h.elim hinit (init_notMem_signals _ i)

/-! ## One handler -/

theorem received_append (trace more : List Delivery) (handler : BitVec 64) :
    received (trace ++ more) handler = received trace handler ++ received more handler := by
  unfold received
  rw [List.filter_append, List.map_append]

/-- Calls of one handler with a list of signals. -/
theorem received_map (last : BitVec 64) (signals : List Signal) (handler : BitVec 64) :
    received (signals.map (⟨last, ·⟩)) handler = if last = handler then signals else [] := by
  unfold received
  rw [List.filter_map, List.map_map]
  show (signals.filter fun _ => decide (last = handler)).map id = _
  rw [List.map_id]
  split_ifs with heq
  · exact List.filter_eq_self.mpr fun _ _ => decide_eq_true heq
  · exact List.filter_eq_nil_iff.mpr fun _ _ => mt of_decide_eq_true heq

theorem received_deliveries (boot : Boot) (signals : List Signal) (handler : BitVec 64) :
    received (deliveries boot signals) handler =
      if (handlers boot).getLast? = some handler then signals else [] := by
  unfold deliveries
  cases hlast : (handlers boot).getLast? with
  | none => rfl
  | some last =>
      dsimp only
      rw [received_map]
      exact if_congr Option.some_inj.symm rfl rfl

/-- A handler is sent INIT once for every module that has it. -/
theorem received_inits (started : List (BitVec 64)) (handler : BitVec 64) :
    received (started.map (⟨·, .init⟩)) handler =
      List.replicate (started.count handler) .init := by
  unfold received
  rw [List.filter_map, List.map_map]
  show ((started.filter fun h => decide (h = handler)).map fun _ => Signal.init) = _
  rw [List.filter_eq, List.map_replicate]

/-- **The trace of one handler** is INIT and what arrived, if it is the last. -/
theorem Running.received {boot : Boot} (hdistinct : (handlers boot).Nodup) {signals : List Signal}
    {k : System} (h : Running boot signals k) (handler : BitVec 64) :
    received k.trace handler = [] ∨ received k.trace handler = [.init] ∨
      received k.trace handler = .init :: signals := by
  rw [h.trace, received_append, received_inits, received_deliveries]
  by_cases hmem : handler ∈ handlers boot
  · rw [List.count_eq_one_of_mem hdistinct hmem]
    split_ifs
    · exact Or.inr (Or.inr rfl)
    · exact Or.inr (Or.inl rfl)
  · have hlast : (handlers boot).getLast? ≠ some handler :=
      fun heq => hmem (List.mem_of_getLast? heq)
    rw [List.count_eq_zero_of_not_mem hmem, if_neg hlast]
    exact Or.inl rfl

/-- **The signal protocol**: where the handlers are distinct and the last is not
null, each handler receives nothing, or INIT once and then only keys and ticks;
and once the modules are started, what arrives is delivered in order to the last
one, and to no other. -/
theorem signals_in_order (boot : Boot) (d : Decoder) (interrupts : List Interrupt)
    (hdistinct : (handlers boot).Nodup) (hnull : (handlers boot).getLast? ≠ some 0) :
    (∀ handler, received (System.run boot d interrupts).trace handler = [] ∨
      ∃ rest, received (System.run boot d interrupts).trace handler = .init :: rest ∧
        .init ∉ rest) ∧
    ∀ pre post, interrupts = pre ++ post →
      (System.run boot d pre).keyEvent = some .moduleKey →
        (System.run boot d interrupts).trace = (System.run boot d pre).trace ++
          deliveries boot (arrivals (System.run boot d pre).decoder post) := by
  constructor
  · intro handler
    rcases run_phase hnull d interrupts with hwait | ⟨signals, hrun, hinit⟩
    · rw [hwait.trace]
      exact Or.inl rfl
    · rcases hrun.received hdistinct handler with hnone | hone | hall
      · exact Or.inl hnone
      · exact Or.inr ⟨[], hone, List.not_mem_nil⟩
      · exact Or.inr ⟨signals, hall, hinit⟩
  -- the second half of the run starts in the phase that the first one ended in
  · rintro pre post rfl hstarted
    rcases run_phase hnull d pre with hwait | ⟨signals, hrun, -⟩
    · rw [hwait.event] at hstarted
      cases hstarted
    · have hend := hrun.run hnull post
      have happend : System.run boot d (pre ++ post) =
          post.foldl (System.interrupt boot) (System.run boot d pre) := List.foldl_append
      rw [happend, hend.trace, hrun.trace, deliveries_append, List.append_assoc]

/-! ## Shells in memory -/

/-- A 64-bit number, low byte first. -/
def le64 (n : ℕ) : List Byte := (List.range 8).map fun i => BitVec.ofNat 8 (n / 256 ^ i)

/-- An entry of `Sections`. -/
def sectionImage (type : Byte) (start : ℕ) : List Byte := [type, 0, 0, 0, 0, 0, 0, 0] ++ le64 start

/-- An executable with the name `"Shell"`, whose handler is `start` bytes behind
its header. -/
def shellImage (start : ℕ) : List Byte :=
  [0x41, 0x54, 0x54, 0x47, 1, 0, 0, 0, 0, 0, 0, 0, 4, 0, 0, 0] ++ sectionImage 0 80 ++
    sectionImage 1 80 ++ sectionImage 2 80 ++ sectionImage 5 start ++ shellName ++ [0]

/-- Shells with the given bases and offsets of the handlers. -/
def shells (modules : List (BitVec 64 × ℕ)) : Boot where
  mem := fun a =>
    match modules.find? fun m => (a - m.1).toNat < 86 with
    | none => 0
    | some m => (shellImage m.2).getD (a - m.1).toNat 0
  memmap := modules.map fun m => ⟨m.1, 0x1000, mmapKernelAndModules⟩

/-- Return starts the shell; its release and a tick are delivered. -/
theorem shell_receives :
    (System.run (shells [(0x1000, 0x60)]) ⟨0, 0⟩ [.byte 0x1C, .byte 0x9C, .timer]).trace =
      (System.run (shells [(0x1000, 0x60)]) ⟨0, 0⟩ [.byte 0x1C]).trace ++
        deliveries (shells [(0x1000, 0x60)]) [.keyboard ⟨keyReturn, 0x0A, 1⟩, .timer] := by
  have hhandlers : handlers (shells [(0x1000, 0x60)]) = [0x1060] := by decide +kernel
  have harrivals : arrivals (System.run (shells [(0x1000, 0x60)]) ⟨0, 0⟩ [.byte 0x1C]).decoder
      [.byte 0x9C, .timer] = [.keyboard ⟨keyReturn, 0x0A, 1⟩, .timer] := by decide +kernel
  rw [← harrivals]
  refine (signals_in_order (shells [(0x1000, 0x60)]) ⟨0, 0⟩ [.byte 0x1C, .byte 0x9C, .timer]
    ?_ ?_).2 [.byte 0x1C] [.byte 0x9C, .timer] rfl (by decide +kernel)
  · rw [hhandlers]
    exact List.nodup_singleton _
  · rw [hhandlers]
    decide

/-- **The addresses of the handlers matter**: two shells at different bases share
a handler, which is sent INIT twice, and a shell whose handler is at address 0
misses the tick after INIT. -/
theorem addresses_matter :
    ((shells [(0x1000, 0x1100), (0x2000, 0x100)]).memmap.map MmapEntry.base).Nodup ∧
      received (System.run (shells [(0x1000, 0x1100), (0x2000, 0x100)]) ⟨0, 0⟩
        [.byte 0x1C]).trace 0x2100 = [.init, .init] ∧
      handlers (shells [(0x1000, 2 ^ 64 - 0x1000)]) = [0] ∧
      (System.run (shells [(0x1000, 2 ^ 64 - 0x1000)]) ⟨0, 0⟩ [.byte 0x1C, .timer]).trace =
        [⟨0, .init⟩] := by
  refine ⟨?_, ?_, ?_, ?_⟩ <;> decide +kernel

end OsdevX64.Kernel
