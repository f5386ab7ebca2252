import OsdevX64.Console.Edited
import OsdevX64.Session.Refinement

/-!
# The line at the prompt

What the user sees is what Enter hands over.  The prompt is 13 characters long, so as
long as the pending line is that much shorter than a row, nothing wraps: the last row of
the screen is the prompt and the pending line, and a backspace always finds a glyph of
its own row.  It has to stay within `buf` and, at an Enter, `argv` of the shell, too
(`Fits`).

**The line of the cursor shows the prompt followed by the pending line**, with the cursor
behind it (`prompt_shows_line`).
-/

namespace OsdevX64.Session

open ByteMemory Words GuardedRun Kernel Console
open ShellModule

/-- The characters of the last row. -/
def lastText {width : ℕ} (l : Layout width) : List ℕ := l.text.last.map Glyph.c

/-- The prompt. -/
def prompt : List Byte := chars "ImaginaryOS> "

section Layouts

variable {width : ℕ} {l : Layout width}

theorem length_lastText (l : Layout width) : (lastText l).length = l.text.last.length :=
  List.length_map _

/-! ## Texts in the last row -/

theorem edit_char {c : ℕ} (hc : c ≠ 8) (hline : c ≠ 10) :
    l.edit (.char c) = { l with text := l.text.put ⟨c, l.fg, l.bg⟩ } := by
  rw [Layout.edit, if_neg (fun h => hc (Call.char.inj h)), Layout.step, if_neg hline]

/-- A character goes behind the row, where it does not fill it. -/
theorem lastText_char {c : ℕ} (hc : c ≠ 8) (hline : c ≠ 10)
    (hroom : (lastText l).length + 1 < width) :
    lastText (l.edit (.char c)) = lastText l ++ [c] := by
  rw [length_lastText] at hroom
  rw [edit_char hc hline]
  show (l.text.put _).last.map Glyph.c = _
  rw [(RowLayout.put_of_room (Nat.ne_of_lt hroom) _).1, List.map_append]
  rfl

/-- A text goes behind the row, where it does not fill it. -/
theorem lastText_text {text : List Byte} (htext : ∀ b ∈ text, IsPrint b)
    (hroom : (lastText l).length + text.length < width) :
    lastText ((textCalls text).foldl Layout.edit l) = lastText l ++ text.map BitVec.toNat := by
  induction text generalizing l with
  | nil => exact (List.append_nil _).symm
  | cons b text ih =>
      rw [List.length_cons] at hroom
      obtain ⟨hback, hline⟩ := (htext b List.mem_cons_self).ne
      have hchar := lastText_char (l := l) hback hline (by omega)
      have hrest := ih (l := l.edit (.char b.toNat))
        (fun b' hb' => htext b' (List.mem_cons_of_mem _ hb')) (by
          rw [hchar, List.length_append, List.length_singleton]
          omega)
      rw [textCalls, List.map_cons, List.foldl_cons]
      rw [hchar, List.append_assoc] at hrest
      exact hrest

/-- A new row is empty. -/
theorem lastText_newline (l : Layout width) : lastText (l.edit (.char 10)) = [] := by
  rw [Layout.edit, if_neg (by decide), Layout.step, if_pos rfl]
  rfl

theorem lastText_setColor (l : Layout width) (fg bg : ℕ) :
    lastText (l.edit (.setColor fg bg)) = lastText l := rfl

theorem lastText_backspace (l : Layout width) :
    lastText (l.edit (.char 8)) = (lastText l).dropLast := by
  rw [Layout.edit, if_pos rfl]
  exact List.map_dropLast

/-- **Every prompt ends in a row of its own.** -/
theorem lastText_prompt (hwidth : prompt.length < width) (l : Layout width) :
    lastText (promptCalls.foldl Layout.edit l) = prompt.map BitVec.toNat := by
  have hsplit : promptCalls = .setColor terminalGreen terminalBlack :: .char 10 ::
      (textCalls (chars "ImaginaryOS>") ++
        .setColor terminalWhite terminalBlack :: textCalls (chars " ")) := by decide
  have hwidth' : 13 < width := hwidth
  rw [hsplit, List.foldl_cons, List.foldl_cons, List.foldl_append, List.foldl_cons]
  have hnew := lastText_newline (l.edit (.setColor terminalGreen terminalBlack))
  have hname : lastText ((textCalls (chars "ImaginaryOS>")).foldl Layout.edit
      ((l.edit (.setColor terminalGreen terminalBlack)).edit (.char 10))) =
        (chars "ImaginaryOS>").map BitVec.toNat := by
    rw [lastText_text (by decide) (by
      rw [hnew]
      show 0 + 12 < width
      omega), hnew]
    rfl
  rw [lastText_text (by decide) (by
    rw [lastText_setColor, hname]
    show 12 + 1 < width
    omega), lastText_setColor, hname]
  rfl

/-! ## Guards -/

/-- Text can be printed anywhere. -/
theorem guarded_printsText {calls : List Call} (h : ∀ call ∈ calls, call.PrintsText) :
    Guarded Layout.edit Editable l calls := by
  induction calls generalizing l with
  | nil => trivial
  | cons call calls ih =>
      obtain ⟨hcall, hrest⟩ := List.forall_mem_cons.mp h
      have hback : call ≠ .char 8 := by
        rintro rfl
        exact absurd hcall (by decide)
      exact ⟨(if_neg hback).mpr hcall, ih hrest⟩

theorem wordLines_printsByte (i : ℕ) {ws : List (List Byte)}
    (h : ∀ word ∈ ws, ∀ b ∈ word, IsPrint b) : ∀ b ∈ wordLines i ws, PrintsByte b := by
  induction ws generalizing i with
  | nil => exact fun b hb => absurd hb List.not_mem_nil
  | cons word ws ih =>
      obtain ⟨hword, hrest⟩ := List.forall_mem_cons.mp h
      refine List.forall_mem_append.mpr ⟨?_, ih (i + 1) hrest⟩
      exact List.forall_mem_append.mpr ⟨List.forall_mem_append.mpr ⟨List.forall_mem_append.mpr
        ⟨fun b hb => Or.inr (decimal_isPrint i b hb), by unfold PrintsByte; decide⟩,
        fun b hb => Or.inr (hword b hb)⟩, by unfold PrintsByte; decide⟩

theorem commandText_printsByte {line : List Byte} (h : ∀ b ∈ line, IsPrint b) :
    ∀ b ∈ commandText line, PrintsByte b :=
  List.forall_mem_append.mpr ⟨List.forall_mem_append.mpr ⟨by unfold PrintsByte; decide,
    List.forall_mem_append.mpr ⟨fun b hb => Or.inr (decimal_isPrint _ b hb),
      by unfold PrintsByte; decide⟩⟩,
    wordLines_printsByte 0 fun _ hword b hb => h b ((word_of_line hword).2 hb)⟩

theorem promptCalls_printsText : ∀ call ∈ promptCalls, call.PrintsText := by decide

theorem greeting_printsText : ∀ call ∈ greeting, call.PrintsText := by
  refine List.forall_mem_append.mpr ⟨by decide, List.forall_mem_append.mpr
    ⟨textCalls_printsText fun b hb => (banner_chars b hb).1, promptCalls_printsText⟩⟩

/-! ## One answer -/

section Answers

variable {line : List Byte} {e : ModuleKeyEvent}

/-- **One answer keeps the prompt line**: it ends with the prompt and the edited line. -/
theorem answer_edited (hlast : lastText l = (prompt ++ line).map BitVec.toNat)
    (hprint : ∀ b ∈ line, IsPrint b) (hroom : prompt.length + line.length < width)
    (hroom' : prompt.length + (edit line e).length < width) :
    Guarded Layout.edit Editable l (answer line e) ∧
      lastText ((answer line e).foldl Layout.edit l) =
        (prompt ++ edit line e).map BitVec.toNat := by
  unfold answer
  unfold edit at hroom' ⊢
  by_cases hr : e.released = 0
  · rw [if_neg (not_not_intro hr)] at hroom' ⊢
    rw [if_neg (not_not_intro hr)]
    by_cases hp : Prints e
    -- the echo goes behind the row
    · rw [if_pos hp] at hroom' ⊢
      rw [if_pos hp]
      have hone : ∀ b ∈ [(e.codepoint.setWidth 8 : Byte)], IsPrint b :=
        List.forall_mem_singleton.mpr (prints_isPrint hp).1
      refine ⟨guarded_printsText (textCalls_printsText fun b hb => Or.inr (hone b hb)), ?_⟩
      rw [List.length_append, List.length_singleton] at hroom'
      rw [lastText_text hone (by
        rw [hlast, List.length_map, List.length_append, List.length_singleton]
        omega), hlast, ← List.map_append, List.append_assoc]
    · rw [if_neg hp] at hroom' ⊢
      rw [if_neg hp]
      by_cases ha : e.codepoint = 10
      -- a command ends with a prompt of its own
      · rw [if_pos ha, if_pos ha]
        refine ⟨guarded_printsText (List.forall_mem_append.mpr ⟨List.forall_mem_append.mpr
          ⟨by decide, textCalls_printsText (commandText_printsByte hprint)⟩,
          promptCalls_printsText⟩), ?_⟩
        rw [List.foldl_append, lastText_prompt (by omega), List.append_nil]
      · rw [if_neg ha] at hroom' ⊢
        rw [if_neg ha]
        by_cases hb : e.codepoint = 8
        · rw [if_pos hb]
          by_cases hnil : line = []
          · rw [hnil] at hlast ⊢
            rw [if_neg fun h => h.2 rfl]
            exact ⟨trivial, hlast⟩
          -- there is a character of the line to take back
          · rw [if_pos ⟨hb, hnil⟩]
            have hne : l.text.last ≠ [] := by
              intro h
              have hlen := congrArg List.length hlast
              rw [length_lastText, h, List.length_map, List.length_append] at hlen
              change 0 = 13 + line.length at hlen
              omega
            refine ⟨⟨(if_pos rfl).mpr hne, trivial⟩, ?_⟩
            show lastText (l.edit (.char 8)) = _
            rw [lastText_backspace, hlast, ← List.map_dropLast, List.dropLast_append_of_ne_nil hnil]
        · rw [if_neg hb, if_neg fun h => hb h.1]
          exact ⟨trivial, hlast⟩
  · rw [if_pos hr, if_pos hr]
    exact ⟨trivial, hlast⟩

/-- The answers to key events whose lines fit into a row with the prompt. -/
theorem transcript_edited {events : List ModuleKeyEvent}
    (hlast : lastText l = (prompt ++ line).map BitVec.toNat) (hprint : ∀ b ∈ line, IsPrint b)
    (hroom : ∀ pre, pre <+: events → prompt.length + (pre.foldl edit line).length < width) :
    Guarded Layout.edit Editable l (transcript line events) ∧
      lastText ((transcript line events).foldl Layout.edit l) =
        (prompt ++ events.foldl edit line).map BitVec.toNat := by
  induction events generalizing l line with
  | nil => exact ⟨trivial, hlast⟩
  | cons e events ih =>
      obtain ⟨hguard, hlast'⟩ := answer_edited hlast hprint (hroom [] List.nil_prefix)
        (hroom [e] (List.cons_prefix_cons.mpr ⟨rfl, List.nil_prefix⟩))
      obtain ⟨hguard', hend⟩ := ih hlast' (edit_printable hprint) fun pre hpre =>
        hroom (e :: pre) (List.cons_prefix_cons.mpr ⟨rfl, hpre⟩)
      rw [transcript, List.foldl_append]
      exact ⟨(guarded_append _ _ _ _ _).mpr ⟨hguard, hguard'⟩, hend⟩

end Answers

/-- The greeting ends with an empty prompt line. -/
theorem greeting_edited (hwidth : prompt.length < width) (l : Layout width) :
    Guarded Layout.edit Editable l greeting ∧
      lastText (greeting.foldl Layout.edit l) = prompt.map BitVec.toNat := by
  refine ⟨guarded_printsText greeting_printsText, ?_⟩
  rw [greeting, List.foldl_append, List.foldl_append]
  exact lastText_prompt hwidth _

end Layouts

/-! ## On the screen -/

/-- The row of the cursor shows the last row of the layout. -/
theorem shows_cursor_row {w h width : ℕ} {l : Layout width} {t : Terminal}
    (hl : Shows w h l t) {j : ℕ} (hj : j < t.width) :
    (t.glyphAt t.y j).c = (lastText l)[j]?.getD 32 := by
  have hrow := hl.rows.y
  have hclosed := l.text.length_rows
  have hcell := hl.rows.cells t.y hl.y_lt j hj
  rw [show l.text.rows.length - t.height + t.y = l.text.closed.length by omega,
    RowLayout.cell?_last] at hcell
  rw [lastText, List.getElem?_map]
  cases hglyph : l.text.last[j]? with
  | none =>
      rw [hglyph] at hcell
      exact hcell
  | some a =>
      rw [hglyph] at hcell
      exact congrArg Glyph.c hcell

/-- **The line of the cursor shows the prompt and the pending line.**  From any screen
that shows a layout, while every pending line fits into a row behind the prompt and stays
within `buf` and `argv` (`Fits`), the whole screen shows the tail of the edited transcript,
and the row of the cursor holds exactly the line that Enter would hand over. -/
theorem prompt_shows_line {w h width : ℕ} {s : Screen} {l : Layout width}
    (hl : Shows w h l s.terminal) (f : Frame) (argv : ℕ → ℕ) {signals : List Signal}
    (hinit : .init ∉ signals) (hfits : Guarded edit Fits [] (keysOf signals))
    (hroom : ∀ pre, pre <+: keysOf signals →
      prompt.length + (pre.foldl edit []).length < width) :
    ∃ σ, run f (boot argv s) (.init :: signals) = some σ ∧
      Shows w h ((greeting ++ transcript [] (keysOf signals)).foldl Layout.edit l)
        σ.screen.terminal ∧
      σ.screen.terminal.x = prompt.length + ((keysOf signals).foldl edit []).length ∧
      ∀ j < width, (σ.screen.terminal.glyphAt σ.screen.terminal.y j).c =
        ((prompt ++ (keysOf signals).foldl edit []).map BitVec.toNat)[j]?.getD 32 := by
  obtain ⟨σ₀, hσ₀, hfollows, hscreen₀⟩ := signal_init f argv s
  obtain ⟨σ, hσ, -, hscreen⟩ := run_follows (f := f) hfollows hinit hfits
  obtain ⟨hguard, hprompt⟩ := greeting_edited (hroom [] List.nil_prefix) l
  have hempty : lastText (greeting.foldl Layout.edit l) = (prompt ++ []).map BitVec.toNat := by
    rw [List.append_nil]
    exact hprompt
  obtain ⟨hguard', hlast⟩ :=
    transcript_edited hempty (fun b hb => absurd hb List.not_mem_nil) hroom
  have hend : Shows w h ((greeting ++ transcript [] (keysOf signals)).foldl Layout.edit l)
      σ.screen.terminal := by
    rw [hscreen, hscreen₀, ← runCalls_append]
    exact runCalls_edited hl ((guarded_append _ _ _ _ _).mpr ⟨hguard, hguard'⟩)
  rw [← List.foldl_append] at hlast
  refine ⟨σ, ?_, hend, ?_, fun j hj => ?_⟩
  · unfold run
    rw [List.foldlM_cons, hσ₀]
    exact hσ
  · rw [hend.rows.x, ← length_lastText, hlast, List.length_map, List.length_append]
  · rw [shows_cursor_row hend (by rw [hend.rows.width]; exact hj), hlast]

/-- A console of 20 columns and two rows. -/
def smallScreen : Screen :=
  terminalInit (Screen.boot (fun _ => 0) (fun _ => 0) 160) (fun _ => 0) 160 32

theorem prompt_shows_line_takenBack :
    ∃ σ, run ⟨0x1000, fun _ => ⟨fun _ => 1, 0⟩⟩ (boot (fun _ => 0) smallScreen)
        (.init :: takenBack) = some σ ∧
      Shows 160 32 ((greeting ++ transcript [] (keysOf takenBack)).foldl Layout.edit
        (Layout.fresh (show 0 < 160 / 8 by decide))) σ.screen.terminal ∧
      σ.screen.terminal.x = prompt.length + ((keysOf takenBack).foldl edit []).length ∧
      ∀ j < 160 / 8, (σ.screen.terminal.glyphAt σ.screen.terminal.y j).c =
        ((prompt ++ (keysOf takenBack).foldl edit []).map BitVec.toNat)[j]?.getD 32 := by
  have hroom : ∀ pre ∈ (keysOf takenBack).inits,
      prompt.length + (pre.foldl edit []).length < 160 / 8 := by decide
  exact prompt_shows_line (terminalInit_shows _ _ (by decide) (by decide) (by decide))
    ⟨0x1000, fun _ => ⟨fun _ => 1, 0⟩⟩ (fun _ => 0) (by decide) (by decide)
    fun pre hpre => hroom pre ((List.mem_inits _ _).mpr hpre)

end OsdevX64.Session
