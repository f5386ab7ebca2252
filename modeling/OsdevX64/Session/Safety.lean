import OsdevX64.Session.Prompt

/-!
# A session is safe

The shell stays in its arrays and the console stays in its buffer, in its frame and in
its tables, after every signal of a session whose key events fit: what the shell prints
is text, backspaces and colours of the table (`transcript_allowed`), and the console is
safe under those.
-/

namespace OsdevX64.Session

open ByteMemory Words GuardedRun Kernel Console
open ShellModule

/-! ## What is called -/

theorem printsText_allowed {call : Call} (h : call.PrintsText) : call.Allowed := by
  cases call with
  | char c =>
      have hc : (32 ≤ c ∧ c ≤ 126) ∨ c = 10 := h
      exact hc.imp_right Or.inr
  | setColor fg bg => exact h
  | setFg fg => exact h
  | setBg bg => exact h

theorem answer_allowed {line : List Byte} (e : ModuleKeyEvent) (h : ∀ b ∈ line, IsPrint b) :
    ∀ call ∈ answer line e, call.Allowed := by
  unfold answer
  split_ifs with hr hp ha hb
  · exact fun call hcall => absurd hcall List.not_mem_nil
  · exact fun call hcall => printsText_allowed (textCalls_printsText
      (List.forall_mem_singleton.mpr (Or.inr (prints_isPrint hp).1)) call hcall)
  · exact fun call hcall => printsText_allowed (List.forall_mem_append.mpr
      ⟨List.forall_mem_append.mpr ⟨by decide, textCalls_printsText (commandText_printsByte h)⟩,
        promptCalls_printsText⟩ call hcall)
  · decide
  · exact fun call hcall => absurd hcall List.not_mem_nil

/-- Only text, backspaces and colours of the table are printed. -/
theorem transcript_allowed {line : List Byte} (events : List ModuleKeyEvent)
    (h : ∀ b ∈ line, IsPrint b) : ∀ call ∈ transcript line events, call.Allowed := by
  induction events generalizing line with
  | nil => exact fun call hcall => absurd hcall List.not_mem_nil
  | cons e events ih =>
      exact List.forall_mem_append.mpr ⟨answer_allowed e h, ih (edit_printable h)⟩

/-! ## The console under such calls -/

theorem apply_inRange {s : Screen} (hr : Ready s) (hs : InRange s) {call : Call}
    (hcall : call.Allowed) : Ready (call.apply s) ∧ InRange (call.apply s) := by
  cases call with
  | char c =>
      have hc : (32 ≤ c ∧ c ≤ 126) ∨ c = 8 ∨ c = 10 := hcall
      exact ⟨hr.of_sameFrame (terminalChar_frame s c), terminalChar_inRange hr hs (by omega)⟩
  | setColor fg bg =>
      exact ⟨⟨hr.size, hr.size_lt, hcall.1, hcall.2⟩, hs.glyphs, hs.colors, hs.cells⟩
  | setFg fg => exact ⟨⟨hr.size, hr.size_lt, hcall, hr.bg⟩, hs.glyphs, hs.colors, hs.cells⟩
  | setBg bg => exact ⟨⟨hr.size, hr.size_lt, hr.fg, hcall⟩, hs.glyphs, hs.colors, hs.cells⟩

theorem runCalls_inRange {s : Screen} (hr : Ready s) (hs : InRange s) {calls : List Call}
    (hcalls : ∀ call ∈ calls, call.Allowed) :
    Ready (runCalls s calls) ∧ InRange (runCalls s calls) := by
  induction calls generalizing s with
  | nil => exact ⟨hr, hs⟩
  | cons call calls ih =>
      obtain ⟨hcall, hrest⟩ := List.forall_mem_cons.mp hcalls
      obtain ⟨hr', hs'⟩ := apply_inRange hr hs hcall
      exact ih hr' hs' hrest

/-- A console of `w × h` pixels whose accesses were all in range. -/
structure SafeConsole (w h : ℕ) (s : Screen) : Prop where
  bounded : Bounded w h s
  placed : Placed s
  ready : Ready s
  inRange : InRange s

theorem SafeConsole.runCalls {w h : ℕ} (hw : w < 2 ^ 16) (hh : h < 2 ^ 16) {s : Screen}
    (hs : SafeConsole w h s) {calls : List Call} (hcalls : ∀ call ∈ calls, call.Allowed) :
    SafeConsole w h (Console.runCalls s calls) := by
  obtain ⟨hb, hp⟩ := runCalls_bounded hw hh hs.bounded hs.placed calls
  obtain ⟨hr, hi⟩ := runCalls_inRange hs.ready hs.inRange hcalls
  exact ⟨hb, hp, hr, hi⟩

/-! ## Every state -/

theorem keysOf_prefix {pre signals : List Signal} (h : pre <+: signals) :
    keysOf pre <+: keysOf signals := h.filterMap _

/-- **In every state of a session the shell is in its arrays and the console in its
buffer, its frame and its tables.** -/
theorem session_safe {w h : ℕ} (hw : w ≤ 65535) (hh : h ≤ 65535) {s : Screen}
    (hs : SafeConsole w h s) (f : Frame) (argv : ℕ → ℕ) {signals : List Signal}
    (hinit : .init ∉ signals) (hfits : Guarded edit Fits [] (keysOf signals)) :
    ∀ pre, pre <+: signals → ∃ σ, run f (boot argv s) (.init :: pre) = some σ ∧
      InBounds σ.shell ∧ SafeConsole w h σ.screen := by
  intro pre hpre
  have hfits' : Guarded edit Fits [] (keysOf pre) := by
    obtain ⟨rest, hrest⟩ := keysOf_prefix hpre
    rw [← hrest] at hfits
    exact ((guarded_append _ _ _ _ _).mp hfits).1
  obtain ⟨σ₀, hσ₀, hfollows, hscreen₀⟩ := signal_init f argv s
  obtain ⟨σ, hσ, hend, hscreen⟩ := run_follows (f := f) hfollows
    (fun hmem => hinit (hpre.subset hmem)) hfits'
  refine ⟨σ, ?_, hend.inBounds, ?_⟩
  · unfold run
    rw [List.foldlM_cons, hσ₀]
    exact hσ
  · rw [hscreen, hscreen₀, ← runCalls_append]
    refine hs.runCalls (by omega) (by omega) (List.forall_mem_append.mpr ⟨?_, ?_⟩)
    · exact fun call hcall => printsText_allowed (greeting_printsText call hcall)
    · exact transcript_allowed _ fun b hb => absurd hb List.not_mem_nil

theorem session_safe_takenBack :
    ∃ σ, run ⟨0x1000, fun _ => ⟨fun _ => 1, 0⟩⟩ (boot (fun _ => 0) smallScreen)
        (.init :: takenBack.take 3) = some σ ∧ InBounds σ.shell ∧ SafeConsole 160 32 σ.screen := by
  obtain ⟨hb, hp⟩ := terminalInit_bounded (w := 160) (h := 32) (by decide) (by decide) (by decide)
    (by decide) (fun _ => 0) (fun _ => 0) 160 fun _ => 0
  obtain ⟨hr, hi⟩ := terminalInit_inRange (s := Screen.boot (fun _ => 0) (fun _ => 0) 160) rfl rfl
    (fun _ => 0) (w := 160) (h := 32) (by decide)
  exact session_safe (by decide) (by decide) ⟨hb, hp, hr, hi⟩ _ _
    (by decide) (by decide) _ (List.take_prefix 3 takenBack)

end OsdevX64.Session
