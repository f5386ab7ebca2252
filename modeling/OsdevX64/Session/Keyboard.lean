import OsdevX64.Kernel.Protocol
import OsdevX64.Kernel.Typing
import OsdevX64.Session.Refinement

/-!
# From the keyboard to the screen

The whole way of a character: the bytes of the keyboard, the driver, the dispatch to the
module that was started last, the shell, `printf` and the terminal.

A run of interrupts is described by the bytes among them; ticks may come anywhere.
**When Return and then any text are typed, the shell's console shows the answers to just
this text** (`typed_text_shown`), as long as the lines of the text fit the shell.
-/

namespace OsdevX64.Session

open ByteMemory Words GuardedRun Kernel Console
open ShellModule

/-- The bytes of the keyboard among the interrupts. -/
def keyBytes (interrupts : List Interrupt) : List Byte :=
  interrupts.filterMap fun
    | .byte scancode => some scancode
    | .timer => none

/-! ## What arrives -/

/-- **The key events that arrive are those of the bytes**, whatever ticks come between. -/
theorem keysOf_arrivals (d : Decoder) (interrupts : List Interrupt) :
    keysOf (arrivals d interrupts) = (decodeBytes d (keyBytes interrupts)).2 := by
  induction interrupts generalizing d with
  | nil => rfl
  | cons i interrupts ih =>
      rw [arrivals]
      cases i with
      | timer => exact ih d
      | byte scancode =>
          have hfirst : keysOf (Interrupt.signals d (.byte scancode)) =
              (decode d scancode).2.toList := by
            rw [Interrupt.signals]
            cases (decode d scancode).2 with
            | none => rfl
            | some e => rfl
          have hsplit : keysOf (Interrupt.signals d (.byte scancode) ++
              arrivals (Interrupt.after d (.byte scancode)) interrupts) =
              keysOf (Interrupt.signals d (.byte scancode)) ++
                keysOf (arrivals (Interrupt.after d (.byte scancode)) interrupts) :=
            List.filterMap_append
          rw [hsplit, hfirst, ih]
          rfl

/-! ## What the answers depend on -/

/-- The press of a character. -/
def pressOf (b : Byte) : ModuleKeyEvent := press (b.setWidth 32)

/-- A release, and a press without a character, is not answered. -/
theorem answer_ignored {e : ModuleKeyEvent} (h : ¬ (e.released = 0 ∧ e.codepoint ≠ 0))
    (line : List Byte) : answer line e = [] ∧ edit line e = line ∧ Fits line e := by
  unfold answer edit
  by_cases hr : e.released = 0
  · have hzero : e.codepoint = 0 := by
      by_contra hne
      exact h ⟨hr, hne⟩
    have hp : ¬ Prints e := by
      unfold Prints
      rw [hzero]
      decide
    have h10 : e.codepoint ≠ 10 := by rw [hzero]; decide
    have h8 : e.codepoint ≠ 8 := by rw [hzero]; decide
    rw [if_neg (not_not_intro hr), if_neg hp, if_neg h10, if_neg fun hb => h8 hb.1,
      if_neg (not_not_intro hr), if_neg hp, if_neg h10, if_neg h8]
    exact ⟨rfl, rfl, fun _ => ⟨fun hp' => absurd hp' hp, fun h10' => absurd h10' h10⟩⟩
  · rw [if_pos hr, if_pos hr]
    exact ⟨rfl, rfl, fun hr' => absurd hr' hr⟩

/-- A press is answered by its character. -/
theorem answer_press {e : ModuleKeyEvent} (hr : e.released = 0) {b : Byte}
    (hc : e.codepoint = b.setWidth 32) (line : List Byte) :
    answer line e = answer line (pressOf b) ∧ edit line e = edit line (pressOf b) ∧
      (Fits line e ↔ Fits line (pressOf b)) := by
  obtain ⟨key, codepoint, released⟩ := e
  dsimp only at hr hc
  rw [hr, hc]
  exact ⟨rfl, rfl, Iff.rfl⟩

/-- **The answers depend on the characters that are typed** and on nothing else. -/
theorem transcript_charsTyped (line : List Byte) {events : List ModuleKeyEvent} {text : List Byte}
    (h : charsTyped events = text.map (BitVec.setWidth 32)) :
    transcript line events = transcript line (text.map pressOf) ∧
      (Guarded edit Fits line events ↔ Guarded edit Fits line (text.map pressOf)) := by
  induction events generalizing line text with
  | nil =>
      have hnil : text = [] := List.map_eq_nil_iff.mp h.symm
      rw [hnil]
      exact ⟨rfl, Iff.rfl⟩
  | cons e events ih =>
      unfold charsTyped at h
      by_cases htyped : e.released = 0 ∧ e.codepoint ≠ 0
      · rw [List.filter_cons_of_pos (by simpa using htyped), List.map_cons] at h
        obtain ⟨b, text, rfl, hb, hrest⟩ := List.map_eq_cons_iff.mp h.symm
        obtain ⟨hanswer, hedit, hfits⟩ := answer_press htyped.1 hb.symm line
        obtain ⟨htranscript, hguarded⟩ := ih (edit line (pressOf b)) hrest.symm
        rw [List.map_cons, transcript, transcript, hanswer, hedit, htranscript]
        refine ⟨rfl, ?_⟩
        show Fits line e ∧ Guarded edit Fits (edit line e) events ↔ _
        rw [hedit]
        exact and_congr hfits hguarded
      · rw [List.filter_cons_of_neg (by simpa using htyped)] at h
        obtain ⟨hanswer, hedit, hfits⟩ := answer_ignored htyped line
        obtain ⟨htranscript, hguarded⟩ := ih line h
        rw [transcript, hanswer, hedit, htranscript]
        refine ⟨rfl, ?_⟩
        show Fits line e ∧ Guarded edit Fits (edit line e) events ↔ _
        rw [hedit]
        exact ⟨fun hboth => hguarded.mp hboth.2, fun hrest => ⟨hfits, hguarded.mpr hrest⟩⟩

/-! ## Starting the shell -/

/-- The return key. -/
def returnKey : PhysKey := ⟨false, 0x1C, by decide⟩

theorem bootAnyKey_decoder (boot : Boot) (k : System) (e : ModuleKeyEvent) :
    (k.bootAnyKey boot e).decoder = k.decoder := by
  unfold System.bootAnyKey System.moduleInit
  split_ifs
  · rw [foldl_startModule]
    rfl
  · rfl

/-- **Return starts the modules**, after any ticks; what comes behind it is left. -/
theorem waiting_return (boot : Boot) {k : System} (h : Waiting k) (hdecoder : k.decoder = ⟨0, 0⟩)
    {interrupts : List Interrupt} {bytes : List Byte}
    (hbytes : keyBytes interrupts = 0x1C :: bytes) :
    ∃ k' post, Running boot [] k' ∧ k'.decoder = ⟨0, 0⟩ ∧ keyBytes post = bytes ∧
      interrupts.foldl (System.interrupt boot) k = post.foldl (System.interrupt boot) k' := by
  induction interrupts with
  | nil => exact absurd hbytes (List.cons_ne_nil _ _).symm
  | cons i interrupts ih =>
      cases i with
      | timer =>
          obtain ⟨k', post, hrest⟩ := ih hbytes
          refine ⟨k', post, hrest.1, hrest.2.1, hrest.2.2.1, ?_⟩
          rw [List.foldl_cons, interrupt_timer, h.timer]
          exact hrest.2.2.2
      | byte scancode =>
          obtain ⟨rfl, hpost⟩ : scancode = 0x1C ∧ keyBytes interrupts = bytes :=
            List.cons_eq_cons.mp hbytes
          have hdecode : decode ⟨0, 0⟩ 0x1C = (⟨0, 0⟩, some ⟨keyReturn, 0x0A, 0⟩) := by decide
          have hfirst : k.interrupt boot (.byte 0x1C) =
              (k.setDecoder ⟨0, 0⟩).bootAnyKey boot ⟨keyReturn, 0x0A, 0⟩ := by
            rw [interrupt_byte h.keyboard, System.keyboardIrqHandler, hdecoder, hdecode]
            exact dispatchKey_bootAnyKey (h.setDecoder _).event boot _
          refine ⟨(k.setDecoder ⟨0, 0⟩).bootAnyKey boot ⟨keyReturn, 0x0A, 0⟩, interrupts,
            (h.setDecoder ⟨0, 0⟩).boot _ rfl, bootAnyKey_decoder _ _ _, hpost, ?_⟩
          rw [List.foldl_cons, hfirst]

theorem init_notMem_arrivals (d : Decoder) (interrupts : List Interrupt) :
    .init ∉ arrivals d interrupts := by
  induction interrupts generalizing d with
  | nil => exact List.not_mem_nil
  | cons i interrupts ih =>
      rw [arrivals, List.mem_append]
      exact fun h => h.elim (init_notMem_signals d i) (ih _)

/-- The module that was started last receives INIT and what arrives. -/
theorem received_last {boot : Boot} (hdistinct : (handlers boot).Nodup) {handler : BitVec 64}
    (hlast : (handlers boot).getLast? = some handler) {signals : List Signal} {k : System}
    (h : Running boot signals k) : received k.trace handler = .init :: signals := by
  rw [h.trace, received_append, received_inits, received_deliveries, if_pos hlast,
    List.count_eq_one_of_mem hdistinct (List.mem_of_getLast? hlast)]
  rfl

/-- **What the shell receives of a text.**  Return is pressed and released and then the text
is typed, with ticks anywhere; behind INIT the shell that was started last gets signals in
which the characters of the text are typed. -/
theorem received_typed {boot : Boot} (hdistinct : (handlers boot).Nodup) {handler : BitVec 64}
    (hlast : (handlers boot).getLast? = some handler) (hnull : handler ≠ 0) {text : List Byte}
    (htext : ∀ b ∈ text, Typable b) {interrupts : List Interrupt}
    (hbytes : keyBytes interrupts =
      (.press returnKey :: .release returnKey :: strokesOfText text).flatMap Stroke.bytes) :
    ∃ signals, received (System.run boot ⟨0, 0⟩ interrupts).trace handler = .init :: signals ∧
      .init ∉ signals ∧ charsTyped (keysOf signals) = text.map (BitVec.setWidth 32) := by
  obtain ⟨k', post, hrunning, hdecoder, hpost, hrun⟩ :=
    waiting_return boot (booted_waiting ⟨0, 0⟩) rfl hbytes
  have hcurrent : (handlers boot).getLast? ≠ some 0 := by
    rw [hlast]
    exact fun h => hnull (Option.some_inj.mp h)
  have hend := hrunning.run hcurrent post
  rw [hdecoder, List.nil_append, ← hrun] at hend
  -- the release of Return is not answered, and the rest is the text
  have hrelease : decodeBytes ⟨0, 0⟩ (Stroke.release returnKey).bytes =
      (⟨0, 0⟩, [⟨keyReturn, 0x0A, 1⟩]) := by decide
  refine ⟨arrivals ⟨0, 0⟩ post, received_last hdistinct hlast hend,
    init_notMem_arrivals ⟨0, 0⟩ post, ?_⟩
  rw [keysOf_arrivals, hpost]
  show charsTyped (decodeBytes ⟨0, 0⟩ ((Stroke.release returnKey).bytes ++
    (strokesOfText text).flatMap Stroke.bytes)).2 = _
  rw [decodeBytes_append, hrelease]
  exact (text_delivered htext).2

/-- **The session of signals that type a text** ends as after the greeting and the answers
to its characters. -/
theorem run_charsTyped {signals : List Signal} (hinit : .init ∉ signals) {text : List Byte}
    (hkeys : charsTyped (keysOf signals) = text.map (BitVec.setWidth 32))
    (hfits : Guarded edit Fits [] (text.map pressOf)) (f : Frame) (argv : ℕ → ℕ) (s : Screen) :
    ∃ σ, run f (Session.boot argv s) (.init :: signals) = some σ ∧
      σ.screen = runCalls s (greeting ++ transcript [] (text.map pressOf)) := by
  obtain ⟨htranscript, hguarded⟩ := transcript_charsTyped [] hkeys
  obtain ⟨σ₀, hσ₀, hfollows, hscreen₀⟩ := signal_init f argv s
  obtain ⟨σ, hσ, -, hscreen⟩ := run_follows (f := f) hfollows hinit (hguarded.mpr hfits)
  refine ⟨σ, ?_, ?_⟩
  · rw [Session.run, List.foldlM_cons, hσ₀]
    exact hσ
  · rw [hscreen, hscreen₀, htranscript, runCalls_append]

/-- **What is typed is answered on the screen**: the shell that was started last, at a
console in any state, shows the greeting and the answers to the characters of the text. -/
theorem typed_text_shown {boot : Boot} (hdistinct : (handlers boot).Nodup) {handler : BitVec 64}
    (hlast : (handlers boot).getLast? = some handler) (hnull : handler ≠ 0) {text : List Byte}
    (htext : ∀ b ∈ text, Typable b) (hfits : Guarded edit Fits [] (text.map pressOf))
    {interrupts : List Interrupt}
    (hbytes : keyBytes interrupts =
      (.press returnKey :: .release returnKey :: strokesOfText text).flatMap Stroke.bytes)
    (f : Frame) (argv : ℕ → ℕ) (s : Screen) :
    ∃ σ, run f (Session.boot argv s)
        (received (System.run boot ⟨0, 0⟩ interrupts).trace handler) = some σ ∧
      σ.screen = runCalls s (greeting ++ transcript [] (text.map pressOf)) := by
  obtain ⟨signals, hreceived, hinit, hkeys⟩ := received_typed hdistinct hlast hnull htext hbytes
  rw [hreceived]
  exact run_charsTyped hinit hkeys hfits f argv s

/-- `"a b"`, the `b` taken back, and Return, with a tick before the first byte. -/
def typedLine : List Byte := [97, 32, 98, 8, 10]

/-- The interrupts while it is typed. -/
def typedInterrupts : List Interrupt :=
  .timer :: ((Stroke.press returnKey :: .release returnKey ::
    strokesOfText typedLine).flatMap Stroke.bytes).map .byte

theorem typed_text_shown_line :
    ∃ σ, run ⟨0x1000, fun _ => ⟨fun _ => 1, 0⟩⟩
        (Session.boot (fun _ => 0) (Screen.boot (fun _ => 0) (fun _ => 0) 8))
        (received (System.run (shells [(0x1000, 0x60)]) ⟨0, 0⟩ typedInterrupts).trace 0x1060) =
          some σ ∧
      σ.screen = runCalls (Screen.boot (fun _ => 0) (fun _ => 0) 8)
        (greeting ++ transcript [] (typedLine.map pressOf)) := by
  have hhandlers : handlers (shells [(0x1000, 0x60)]) = [0x1060] := by decide +kernel
  refine typed_text_shown ?_ ?_ (by decide) (by decide) (by decide) (by decide +kernel) _ _ _
  · rw [hhandlers]
    exact List.nodup_singleton _
  · rw [hhandlers]
    rfl

end OsdevX64.Session
