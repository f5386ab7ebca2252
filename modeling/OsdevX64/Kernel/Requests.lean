import OsdevX64.Interrupt.Controllers
import OsdevX64.Interrupt.Descriptors
import OsdevX64.Interrupt.Frame
import OsdevX64.Kernel.Protocol

/-!
# From the request to the handler

A device raises its line, the controllers ask for the CPU, the CPU takes the interrupt to
the stub of its vector, the stub passes the number to `isr_handler`, and that one reports
the end of the interrupt and calls the handler of the line.  `Platform` is the kernel with
the controllers.

**In any run every request reaches the handler of its line**, under its number and no more
often than it was raised, and waits only for lines before it in the order of priority; the
kernel goes on as if the devices had called it, and nothing stays in service
(`requests_reach_handlers`).
-/

namespace OsdevX64.Kernel

open ByteMemory
open OsdevX64.Interrupt hiding run

/-- The kernel and the controllers, with the calls of `isr_handler` so far: the number, and
the byte that port `0x60` had. -/
structure Platform where
  kernel : System
  controllers : Controllers
  calls : List (ℕ × Byte)

/-- A device raises its line, or the CPU is ready to take an interrupt, with the byte that
port `0x60` has then. -/
def Platform.step (boot : Boot) (m : Platform) : Latch.Event ℕ Byte → Platform
  | .raise line => { m with controllers := m.controllers.raise line }
  | .take port =>
      match m.controllers.acknowledge with
      | none => m
      | some (vector, controllers) =>
          -- the end is reported before the handler is called, with interrupts off
          { kernel := m.kernel.isrHandler boot vector port
            controllers := controllers.writes (isrHandlerPorts vector)
            calls := m.calls ++ [(vector, port)] }

/-- A run. -/
def Platform.run (boot : Boot) (m : Platform) (events : List (Latch.Event ℕ Byte)) : Platform :=
  events.foldl (Platform.step boot) m

/-- The kernel has registered its handlers, and `idt_init` has set up the controllers. -/
def Platform.booted (d : Decoder) (c : Controllers) : Platform where
  kernel := System.booted d
  controllers := c.writes idtInitPorts
  calls := []

/-- The interrupt that a call of `isr_handler` is. -/
def interruptOf (call : ℕ × Byte) : List Interrupt :=
  if call.1 = 33 then [.byte call.2] else if call.1 = 32 then [.timer] else []

/-! ## The controllers along a run -/

/-- The calls of `isr_handler` for the lines that are served. -/
def callsOf (served : List (ℕ × Byte)) : List (ℕ × Byte) := served.map fun s => (32 + s.1, s.2)

/-- **One step of the platform is one step of a latch.** -/
theorem step_settled (boot : Boot) {m : Platform} {pending : ℕ → Bool}
    (h : Settled m.controllers pending) (e : Latch.Event ℕ Byte) :
    Settled (m.step boot e).controllers (Latch.next priority pending e) ∧
      (m.step boot e).calls = m.calls ++ callsOf (Latch.taken priority pending e) ∧
      (m.step boot e).kernel = (callsOf (Latch.taken priority pending e)).foldl
        (fun k call => k.isrHandler boot call.1 call.2) m.kernel := by
  cases e with
  | raise n => exact ⟨h.raise n, (List.append_nil _).symm, rfl⟩
  | take port =>
      unfold Platform.step Latch.next Latch.taken
      cases hfind : priority.find? pending with
      | none =>
          rw [h.acknowledge_none hfind]
          exact ⟨h, (List.append_nil _).symm, rfl⟩
      | some n =>
          obtain ⟨c, hc, hsettled⟩ := h.acknowledge hfind
          rw [hc]
          exact ⟨hsettled, rfl, rfl⟩

/-- **A run of the platform is a run of a latch.** -/
theorem run_settled (boot : Boot) {m : Platform} {pending : ℕ → Bool}
    (h : Settled m.controllers pending) (events : List (Latch.Event ℕ Byte)) :
    Settled (m.run boot events).controllers (Latch.after priority pending events) ∧
      (m.run boot events).calls = m.calls ++ callsOf (Latch.served priority pending events) ∧
      (m.run boot events).kernel = (callsOf (Latch.served priority pending events)).foldl
        (fun k call => k.isrHandler boot call.1 call.2) m.kernel := by
  induction events generalizing m pending with
  | nil => exact ⟨h, (List.append_nil _).symm, rfl⟩
  | cons e events ih =>
      obtain ⟨hsettled, hcalls, hkernel⟩ := step_settled boot h e
      obtain ⟨hsettled', hcalls', hkernel'⟩ := ih hsettled
      refine ⟨hsettled', ?_, ?_⟩
      · show ((m.step boot e).run boot events).calls = _
        rw [hcalls', hcalls, Latch.served, callsOf, callsOf, callsOf, List.map_append,
          List.append_assoc]
      · show ((m.step boot e).run boot events).kernel = _
        rw [hkernel', hkernel, Latch.served, callsOf, callsOf, callsOf, List.map_append,
          List.foldl_append]

/-! ## What the handlers do -/

/-- Only the timer and the keyboard have handlers, their own. -/
structure Registered (k : System) : Prop where
  timer : k.irqHandlers 0 ≠ some .keyboardIrqHandler
  keyboard : k.irqHandlers 1 = some .keyboardIrqHandler
  others : ∀ n, 2 ≤ n → k.irqHandlers n = none

theorem Registered.of_eq {k k' : System} (h : Registered k)
    (hsame : k'.irqHandlers = k.irqHandlers) : Registered k' :=
  ⟨hsame ▸ h.timer, hsame ▸ h.keyboard, hsame ▸ h.others⟩

theorem signalCurrent_irqHandlers (k : System) (s : Signal) :
    (k.signalCurrent s).irqHandlers = k.irqHandlers := by
  unfold System.signalCurrent
  split_ifs
  · rfl
  · rfl

/-- `boot_any_key` registers the handler of the timer at most. -/
theorem Registered.bootAnyKey {k : System} (h : Registered k) (boot : Boot) (e : ModuleKeyEvent) :
    Registered (k.bootAnyKey boot e) := by
  unfold System.bootAnyKey System.moduleInit
  split_ifs
  · rw [foldl_startModule]
    refine ⟨?_, ?_, fun n hn => ?_⟩
    · show Function.update k.irqHandlers 0 (some IrqHandler.timerEvent) 0 ≠ _
      rw [Function.update_self]
      exact fun heq => IrqHandler.noConfusion (Option.some_inj.mp heq)
    · show Function.update k.irqHandlers 0 (some IrqHandler.timerEvent) 1 = _
      rw [Function.update_of_ne Nat.one_ne_zero, h.keyboard]
    · show Function.update k.irqHandlers 0 (some IrqHandler.timerEvent) n = _
      rw [Function.update_of_ne (by omega), h.others n hn]
  · exact h

theorem Registered.interrupt {k : System} (h : Registered k) (boot : Boot) (i : Interrupt) :
    Registered (k.interrupt boot i) := by
  cases i with
  | timer =>
      rw [interrupt_timer]
      cases htimer : k.irqHandlers 0 with
      | none => exact h
      | some handler =>
          cases handler with
          | keyboardIrqHandler => exact absurd htimer h.timer
          | timerEvent => exact h.of_eq (signalCurrent_irqHandlers k .timer)
  | byte scancode =>
      rw [interrupt_byte h.keyboard]
      unfold System.keyboardIrqHandler
      generalize decode k.decoder scancode = result
      obtain ⟨d, _ | e⟩ := result
      · exact h.of_eq rfl
      · have hset : Registered (k.setDecoder d) := h.of_eq rfl
        dsimp only
        unfold System.dispatchKey
        split
        · exact hset
        · exact hset.bootAnyKey boot e
        · exact hset.of_eq (signalCurrent_irqHandlers _ _)

/-- **A call of `isr_handler` for a line is an interrupt of the keyboard or the timer, or
nothing.** -/
theorem Registered.isrHandler_eq {k : System} (h : Registered k) (boot : Boot) (n : ℕ)
    (port : Byte) : k.isrHandler boot (32 + n) port =
      (interruptOf (32 + n, port)).foldl (System.interrupt boot) k := by
  rcases Nat.lt_or_ge n 2 with hn | hn
  · interval_cases n
    · show k.isrHandler boot 32 port = k.isrHandler boot 32 0
      cases htimer : k.irqHandlers 0 with
      | none =>
          have hnone (q : Byte) : k.isrHandler boot 32 q = k := by
            rw [System.isrHandler, if_pos (by decide), Nat.sub_self, htimer]
          rw [hnone, hnone]
      | some handler =>
          cases handler with
          | keyboardIrqHandler => exact absurd htimer h.timer
          | timerEvent =>
              have htick (q : Byte) : k.isrHandler boot 32 q = k.timerEvent := by
                rw [System.isrHandler, if_pos (by decide), Nat.sub_self, htimer]
              rw [htick, htick]
    · rfl
  · have hnone : interruptOf (32 + n, port) = [] := by
      unfold interruptOf
      rw [if_neg (by dsimp only; omega), if_neg (by dsimp only; omega)]
    rw [hnone, List.foldl_nil, System.isrHandler, Nat.add_sub_cancel_left, h.others n hn]
    split_ifs <;> rfl

/-- **The kernel goes on as after the interrupts.** -/
theorem Registered.foldl_calls {k : System} (h : Registered k) (boot : Boot)
    (served : List (ℕ × Byte)) :
    (callsOf served).foldl (fun k call => k.isrHandler boot call.1 call.2) k =
      ((callsOf served).flatMap interruptOf).foldl (System.interrupt boot) k := by
  induction served generalizing k with
  | nil => rfl
  | cons s served ih =>
      have hcalls : callsOf (s :: served) = (32 + s.1, s.2) :: callsOf served := rfl
      have hregistered : Registered
          ((interruptOf (32 + s.1, s.2)).foldl (System.interrupt boot) k) :=
        List.foldlRecOn (motive := Registered) _ _ h fun k hk i _ => hk.interrupt boot i
      rw [hcalls, List.foldl_cons, List.flatMap_cons, List.foldl_append, h.isrHandler_eq,
        ih hregistered]

theorem booted_registered (d : Decoder) : Registered (System.booted d) := by
  refine ⟨?_, rfl, fun n hn => ?_⟩
  · show Function.update (fun _ => none) 1 (some IrqHandler.keyboardIrqHandler) 0 ≠ _
    rw [Function.update_of_ne Nat.zero_ne_one]
    exact (Option.some_ne_none _).symm
  · show Function.update (fun _ => none) 1 (some IrqHandler.keyboardIrqHandler) n = none
    rw [Function.update_of_ne (by omega)]

/-! ## The way to the handler -/

/-- **The vector of a line leads to its number**: the entry of the table is present and
leads to the stub, and `isr_handler` reads the number in the frame that the stub leaves. -/
theorem vector_leads (stubs : Fin 48 → Word) (behind : ℕ → Word) (vector : Fin 48) :
    let entry := (idtInit (Descriptors.boot stubs behind)).idt (BitVec.ofNat 8 vector)
    entry.Present ∧ entry.handler = stubs vector ∧
      ∀ ret i cpu, (seenState vector ret i cpu).isrNumber.toNat = vector := by
  have hnumber : (BitVec.ofNat 8 vector).toNat = vector := by
    rw [BitVec.toNat_ofNat]
    omega
  have hlt : (BitVec.ofNat 8 vector).toNat < 48 := by omega
  intro entry
  have hentry : entry = descriptor (stubs vector) := by
    show (idtInit (Descriptors.boot stubs behind)).idt (BitVec.ofNat 8 vector) = _
    rw [idtInit_entry, if_pos (Or.inl hlt), isrNamesAsm, dif_pos hlt]
    simp only [hnumber]
  rw [hentry]
  refine ⟨descriptor_present _, handler_descriptor _, fun ret i cpu => ?_⟩
  rw [interruptCpuState_call]
  show (BitVec.ofNat 64 vector).toNat = vector
  rw [BitVec.toNat_ofNat]
  omega

/-- The numbers of the calls are those of the lines. -/
theorem callsOf_lt {served : List (ℕ × Byte)} (hserved : ∀ s ∈ served, s.1 ∈ priority)
    {call : ℕ × Byte} (hcall : call ∈ callsOf served) : call.1 < 48 := by
  obtain ⟨s, hs, rfl⟩ := List.mem_map.mp hcall
  have hline := (mem_priority_iff.mp (hserved s hs)).1
  dsimp only
  omega

theorem countP_callsOf (served : List (ℕ × Byte)) (n : ℕ) :
    (callsOf served).countP (fun call => call.1 = 32 + n) = served.countP fun s => s.1 = n := by
  unfold callsOf
  rw [List.countP_map]
  refine List.countP_congr fun s _ => ?_
  simp

/-- **Every request reaches the handler of its line.**  In any run from `idt_init` on,
nothing is in service between two interrupts, and the kernel is in the state that the
interrupts of timer and keyboard lead to; every call of `isr_handler` came through the entry
of its vector and the stub for it; a line is served at most as often as it was raised; and a
device's line that was raised is served, unless the lines before it were raised often enough
to be served instead. -/
theorem requests_reach_handlers (boot : Boot) (d : Decoder) (stubs : Fin 48 → Word)
    (behind : ℕ → Word) {c : Controllers} (hidle : c.Idle) (events : List (Latch.Event ℕ Byte)) :
    let m := (Platform.booted d c).run boot events
    m.controllers.Idle ∧
      m.kernel = System.run boot d (m.calls.flatMap interruptOf) ∧
      (∀ call ∈ m.calls, ∃ h : call.1 < 48,
        let entry := (idtInit (Descriptors.boot stubs behind)).idt (BitVec.ofNat 8 call.1)
        entry.Present ∧ entry.handler = stubs ⟨call.1, h⟩ ∧
          ∀ ret i cpu, (seenState ⟨call.1, h⟩ ret i cpu).isrNumber.toNat = call.1) ∧
      (∀ n, m.calls.countP (fun call => call.1 = 32 + n) ≤
        events.countP (Latch.Event.raises n)) ∧
      ∀ earlier n later, n ∈ priority → events = earlier ++ .raise n :: later →
        let before := (Platform.booted d c).run boot earlier
        (∃ port, (32 + n, port) ∈ m.calls.drop before.calls.length) ∨
          later.countP Latch.Event.isTake ≤ (Latch.front priority n).length +
            later.countP (Latch.Event.raisesOf (Latch.front priority n)) := by
  have hstart : Settled (Platform.booted d c).controllers fun _ => false := settled_idtInit hidle
  intro m
  obtain ⟨hsettled, hcalls, hkernel⟩ :
      Settled m.controllers _ ∧ m.calls = callsOf _ ∧ m.kernel = _ :=
    run_settled boot hstart events
  refine ⟨hsettled.idle, ?_, fun call hcall => ?_, fun n => ?_, ?_⟩
  · rw [hkernel, hcalls]
    exact (booted_registered d).foldl_calls boot _
  · have hlt := callsOf_lt (Latch.mem_served _ _ _) (hcalls ▸ hcall)
    exact ⟨hlt, vector_leads stubs behind ⟨call.1, hlt⟩⟩
  · have hcount := Latch.taken_le_raised priority (fun _ => false) events n
    rw [hcalls, countP_callsOf]
    exact (Nat.le_add_right _ _).trans (hcount.trans (Nat.le_of_eq (Nat.zero_add _)))
  · intro earlier n later hn hevents before
    have hbefore : before.calls = callsOf (Latch.served priority (fun _ => false) earlier) :=
      (run_settled boot hstart earlier).2.1
    set pending := Function.update (Latch.after priority (fun _ => false) earlier) n true
    have hpending : pending n = true := Function.update_self ..
    have hrest : m.calls.drop before.calls.length =
        callsOf (Latch.served priority pending later) := by
      have hsplit : m.calls = before.calls ++ callsOf (Latch.served priority pending later) := by
        rw [hcalls, hbefore, hevents, Latch.served_append, callsOf, List.map_append]
        rfl
      rw [hsplit, List.drop_left]
    rw [hrest]
    rcases Latch.served_or_behind priority_nodup hn hpending later with ⟨port, hport⟩ | hle
    · exact Or.inl ⟨port, List.mem_map.mpr ⟨(n, port), hport, rfl⟩⟩
    · exact Or.inr (hle.trans (Nat.add_le_add_right List.countP_le_length _))

/-- The controllers as the firmware leaves them. -/
def firmware : Controllers where
  master := ⟨.ready, 0x08, 0x04, 0xFF, fun _ => false, fun _ => false⟩
  slave := ⟨.ready, 0x70, 0x02, 0xFF, fun _ => false, fun _ => false⟩

/-- The mouse and the keyboard ask at once. -/
def mouseAndKey : List (Latch.Event ℕ Byte) := [.raise 12, .raise 1, .take 0x1E, .take 0]

/-- The key comes first; the mouse has no handler. -/
theorem requests_reach_handlers_mouseAndKey :
    let m := (Platform.booted ⟨0, 0⟩ firmware).run (shells [(0x1000, 0x60)]) mouseAndKey
    m.calls = [(33, 0x1E), (44, 0)] ∧ m.controllers.Idle ∧
      m.kernel = System.run (shells [(0x1000, 0x60)]) ⟨0, 0⟩ [.byte 0x1E] := by
  intro m
  have hcalls : m.calls = [(33, 0x1E), (44, 0)] := rfl
  obtain ⟨hidle, hkernel, -⟩ := requests_reach_handlers (shells [(0x1000, 0x60)]) ⟨0, 0⟩
    (fun _ => 0x3000) (fun _ => 0) (⟨rfl, rfl⟩ : firmware.Idle) mouseAndKey
  exact ⟨hcalls, hidle, hkernel⟩

end OsdevX64.Kernel
