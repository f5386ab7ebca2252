import Mathlib.Data.List.DropRight
import OsdevX64.Shell.Bounds

/-!
# The line that Enter hands over

The line is edited in the buffer that the tokeniser later splits, so what an
earlier command left behind the cursor stays there.  It is never seen: Enter
puts its NUL at the cursor, and everything before the cursor has been typed since
the last Enter (`Holds`).  Hence **`shell_command` gets the line that an editor
with no buffer at all makes of the events since the previous Enter**
(`enter_hands_line`).
-/

namespace OsdevX64.ShellModule

open ByteMemory Words GuardedRun Kernel

/-! ## The reference -/

/-- The press of Enter. -/
def IsEnter (e : ModuleKeyEvent) : Prop := e.released = 0 ∧ e.codepoint = 10

instance (e : ModuleKeyEvent) : Decidable (IsEnter e) :=
  inferInstanceAs (Decidable (e.released = 0 ∧ e.codepoint = 10))

/-- The events since the last Enter. -/
def sinceEnter (events : List ModuleKeyEvent) : List ModuleKeyEvent :=
  events.rtakeWhile fun e => ¬ IsEnter e

/-- One event other than Enter: a printable press appends, a backspace drops the
last character if there is one, releases and everything else are ignored. -/
def typed (line : List Byte) (e : ModuleKeyEvent) : List Byte :=
  if e.released ≠ 0 then line
  else if Prints e then line ++ [e.codepoint.setWidth 8]
  else if e.codepoint = 8 then line.dropLast
  else line

/-- The pending line of the reference editor. -/
def referenceLine (events : List ModuleKeyEvent) : List Byte := (sinceEnter events).foldl typed []

theorem edit_enter {e : ModuleKeyEvent} (he : IsEnter e) (line : List Byte) : edit line e = [] := by
  have hp : ¬ Prints e := by
    unfold Prints
    rw [he.2]
    decide
  rw [edit, if_neg (not_not_intro he.1), if_neg hp, if_pos he.2]

theorem edit_of_not_enter {e : ModuleKeyEvent} (he : ¬ IsEnter e) (line : List Byte) :
    edit line e = typed line e := by
  unfold edit typed
  by_cases hr : e.released = 0
  · have hc : e.codepoint ≠ 10 := fun hc => he ⟨hr, hc⟩
    rw [if_neg (not_not_intro hr), if_neg (not_not_intro hr), if_neg hc]
  · rw [if_pos hr, if_pos hr]

/-- **The editor forgets everything before the last Enter.** -/
theorem foldl_edit (events : List ModuleKeyEvent) :
    events.foldl edit [] = referenceLine events := by
  induction events using List.reverseRecOn with
  | nil => rfl
  | append_singleton events e ih =>
      rw [List.foldl_append, ih, List.foldl_cons, List.foldl_nil]
      by_cases he : IsEnter e
      · have hsince : sinceEnter (events ++ [e]) = [] :=
          List.rtakeWhile_concat_neg _ _ e (by simpa using he)
        rw [edit_enter he, referenceLine, hsince]
        rfl
      · have hsince : sinceEnter (events ++ [e]) = sinceEnter events ++ [e] :=
          List.rtakeWhile_concat_pos _ _ e (by simpa using he)
        rw [edit_of_not_enter he, referenceLine, referenceLine, hsince, List.foldl_append]
        rfl

/-! ## At an Enter -/

/-- The state in which Enter calls `shell_command`. -/
def commandState (s : Shell) : Shell := (s.store s.cursor 0).call (.printf "\n" [])

theorem eventKey_commandState {s : Shell} {e : ModuleKeyEvent} (he : IsEnter e) :
    eventKey s e = (shellCommand (s.cursor + 1) (commandState s)).map shellPrompt := by
  rw [eventKey_enter he.1 he.2]
  show (shellCommand (s.cursor + 1) (commandState s)).bind (fun s' => some (shellPrompt s')) = _
  cases shellCommand (s.cursor + 1) (commandState s) with
  | none => rfl
  | some s' => rfl

/-- Lines of at most 255 characters, entered with at most 16 words, fit. -/
theorem fits_of_lengths {line : List Byte} {e : ModuleKeyEvent} (hline : line.length ≤ 255)
    (hwords : IsEnter e → (words isSpace line).length ≤ 16) : Fits line e := by
  have hlt : line.length < shellBufferSize := Nat.lt_succ_of_le hline
  intro hr
  exact ⟨fun _ => hlt, fun hc => ⟨hlt, hwords ⟨hr, hc⟩⟩⟩

/-- **At every Enter `shell_command` is handed the reference editor's line**, as
long as no line gets longer than 255 characters and none is entered with more
than 16 words. -/
theorem enter_hands_line (stack : ℕ → ℕ) {events : List ModuleKeyEvent}
    (hlength : ∀ pre, pre <+: events → (referenceLine pre).length ≤ 255)
    (hwords : ∀ pre e, pre ++ [e] <+: events → IsEnter e →
      (words isSpace (referenceLine pre)).length ≤ 16)
    (pre : List ModuleKeyEvent) (e : ModuleKeyEvent) (hpre : pre ++ [e] <+: events)
    (he : IsEnter e) :
    ∃ s, run stack pre = some s ∧
      eventKey s e = (shellCommand (s.cursor + 1) (commandState s)).map shellPrompt ∧
      HoldsText (commandState s).buffer.cell 0 (referenceLine pre) := by
  have hbefore : pre <+: events := (List.prefix_append pre [e]).trans hpre
  have hguard : Guarded edit Fits [] pre := by
    refine guarded_of_prefixes fun pre' e' hpre' => ?_
    have hpre'' := hpre'.trans hbefore
    rw [foldl_edit]
    exact fits_of_lengths (hlength _ ((List.prefix_append pre' [e']).trans hpre''))
      (hwords pre' e' hpre'')
  obtain ⟨hbounds, hstart⟩ := shellInit_holds stack
  obtain ⟨s, hs⟩ := event_guarded.exists_run (shellInit (Shell.boot stack)) pre
  have hholds := (event_guarded.good_iff hstart hbounds hs).2 hguard
  rw [foldl_edit] at hholds
  refine ⟨s, ?_, eventKey_commandState he, hholds.holdsText⟩
  rw [run_eq]
  exact hs

/-- A long line and then a short one: at the second Enter the rest of the first
is still in the buffer. -/
def twoLines : List ModuleKeyEvent :=
  [press 97, press 32, press 98, press 99, press 8, press 10, press 100, press 10]

theorem enter_hands_line_twoLines :
    ∃ s, run (fun _ => 0) (twoLines.take 7) = some s ∧
      HoldsText (commandState s).buffer.cell 0 [100] := by
  have hlength : ∀ pre ∈ twoLines.inits, (referenceLine pre).length ≤ 255 := by decide
  have hwords : ∀ pre ∈ twoLines.inits, (words isSpace (referenceLine pre)).length ≤ 16 := by
    decide
  obtain ⟨s, hs, -, htext⟩ := enter_hands_line (fun _ => 0)
    (fun pre (hpre : pre <+: twoLines) => hlength pre ((List.mem_inits _ _).mpr hpre))
    (fun pre e hpre _ => hwords pre ((List.mem_inits _ _).mpr
      ((List.prefix_append pre [e]).trans hpre)))
    (twoLines.take 7) (press 10) (by decide) (by decide)
  exact ⟨s, hs, htext⟩

end OsdevX64.ShellModule
