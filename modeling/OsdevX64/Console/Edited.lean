import OsdevX64.Console.Tail
import OsdevX64.Console.Undo
import OsdevX64.Lib.GuardedRun

/-!
# The terminal shows an edited text

A backspace takes the last glyph of the last row away, so the layout of a text follows
the terminal through backspaces too, as long as none comes at the start of a row: there
the terminal goes up a row without going to its end, and the two part.

**The terminal shows the tail of the edited text** after all calls that are `Editable`
where they come (`terminal_shows_edited`).
-/

namespace OsdevX64.Console

open ByteMemory MachineInt GuardedRun

/-- One call, with backspaces. -/
def Layout.edit {width : ℕ} (l : Layout width) (call : Call) : Layout width :=
  if call = .char 8 then { l with text := l.text.drop } else l.step call

/-- A call that prints text, or a backspace in a row that is not empty. -/
def Editable {width : ℕ} (l : Layout width) (call : Call) : Prop :=
  if call = .char 8 then l.text.last ≠ [] else call.PrintsText

instance {width : ℕ} (l : Layout width) (call : Call) : Decidable (Editable l call) := by
  unfold Editable
  infer_instance

section Backspace

variable {w h width : ℕ} {s : Screen} {l : Layout width}

/-- **A backspace takes the last glyph of the row away.** -/
theorem backspace_shows (hl : Shows w h l s.terminal) (hlast : l.text.last ≠ []) :
    Shows w h { l with text := l.text.drop } (terminalChar s 8).terminal := by
  have hpos : 0 < l.text.last.length := List.length_pos_iff.mpr hlast
  have hx := hl.rows.x
  have hlt := hl.rows.x_lt
  -- the cursor goes to the last glyph of its row
  have hback : s.terminal.stepBack = (s.terminal.x - 1, s.terminal.y) := by
    rw [Terminal.stepBack_eq, if_neg (by omega)]
  have htyped : (typed (erased s 8) 8).terminal = (backspace (erased s 8)).terminal := rfl
  have hcursor : (backspace (erased s 8)).terminal.x = s.terminal.x - 1 ∧
      (backspace (erased s 8)).terminal.y = s.terminal.y := by
    rw [backspace_terminal, erased_terminal, hback]
    exact ⟨rfl, rfl⟩
  have hnoscroll : NoScroll s 8 := by
    unfold NoScroll
    rw [htyped, hcursor.2]
    exact hl.y_lt
  have hframe : SameFrame s.terminal (backspace (erased s 8)).terminal := by
    rw [← htyped]
    exact (erased_frame s 8).trans (typed_frame (erased s 8) 8)
  rw [terminalChar_of_noScroll hnoscroll, htyped]
  have hrows : l.text.drop.rows.length = l.text.rows.length := by
    rw [RowLayout.length_rows, RowLayout.length_rows]
    rfl
  have hrow := hl.rows.y
  have hclosed := l.text.length_rows
  refine ⟨hl.sized.of_sameFrame hframe, ⟨hframe.width.trans hl.rows.width, ?_, ?_, ?_⟩, ?_,
    hframe.fg.trans hl.fg, hframe.bg.trans hl.bg⟩
  · rw [hcursor.1, hx]
    exact List.length_dropLast.symm
  · rw [hcursor.2, hframe.height, hrows]
    exact hl.rows.y
  · intro i hi j hj
    rw [hframe.height] at hi ⊢
    rw [hframe.width] at hj
    have hglyph : (backspace (erased s 8)).terminal.glyphAt i j =
        if i = s.terminal.y ∧ j = s.terminal.x - 1 then ⟨32, s.terminal.fg, s.terminal.bg⟩
        else s.terminal.glyphAt i j := by
      have hsize := hl.sized.size_lt
      rw [hl.sized.size] at hsize
      unfold backspace
      rw [erased_terminal, hback]
      dsimp only
      have hfits : (Glyph.mk 32 s.terminal.fg s.terminal.bg).Fits :=
        ⟨(by decide : 32 < 2 ^ 8), hl.sized.fg, hl.sized.bg⟩
      generalize hm : (erased s 8).moveTo (s.terminal.x - 1) s.terminal.y = m
      have hwidth : m.terminal.width = s.terminal.width := by
        rw [← hm, moveTo_width, erased_terminal]
      have hheight : m.terminal.height = s.terminal.height := by
        rw [← hm, moveTo_height, erased_terminal]
      have hbefore : m.terminal.glyphAt i j = s.terminal.glyphAt i j := by
        rw [← hm, glyphAt_moveTo, erased_terminal]
      rw [← hbefore]
      rw [← hwidth] at hj hlt
      rw [← hwidth, ← hheight] at hsize
      have hy := hl.y_lt
      rw [← hheight] at hy
      exact glyphAt_terminalPut hsize (by omega) hy hfits hj
    rw [hrows, hglyph, RowLayout.cell?_drop hlast]
    by_cases hij : i = s.terminal.y ∧ j = s.terminal.x - 1
    · rw [if_pos hij, if_pos ⟨by omega, by omega⟩]
      rfl
    · rw [if_neg hij, if_neg (fun h => hij ⟨by omega, by omega⟩)]
      exact hl.rows.cells i hi j hj
  · rw [hcursor.2, hframe.height]
    exact hl.y_lt

theorem edit_shows (hl : Shows w h l s.terminal) {call : Call} (hcall : Editable l call) :
    Shows w h (l.edit call) (call.apply s).terminal := by
  unfold Layout.edit
  unfold Editable at hcall
  by_cases hback : call = .char 8
  · rw [if_pos hback] at hcall ⊢
    rw [hback]
    exact backspace_shows hl hcall
  · rw [if_neg hback] at hcall ⊢
    exact apply_shows hl hcall

/-- The terminal keeps showing the layout. -/
theorem runCalls_edited (hl : Shows w h l s.terminal) {calls : List Call}
    (hcalls : Guarded Layout.edit Editable l calls) :
    Shows w h (calls.foldl Layout.edit l) (runCalls s calls).terminal := by
  have hstep : ∀ (s : Screen) (l : Layout width) (call : Call), Shows w h l s.terminal →
      Editable l call → Shows w h (l.edit call) (call.apply s).terminal :=
    fun _ _ _ hl hcall => edit_shows hl hcall
  exact hcalls.foldl_rel hstep hl

/-- What a terminal that shows a layout looks like. -/
theorem Shows.window (hl : Shows w h l s.terminal) :
    s.terminal.x = l.text.last.length ∧
      s.terminal.y = min l.text.rows.length s.terminal.height - 1 ∧
      ∀ i < s.terminal.height, ∀ j < s.terminal.width,
        (s.terminal.glyphAt i j).Matches
          (((l.text.window s.terminal.height).getD i [])[j]?) := by
  have hrow := hl.rows.y
  have hy := hl.y_lt
  refine ⟨hl.rows.x, by omega, fun i hi j hj => ?_⟩
  rw [RowLayout.getD_window]
  exact hl.rows.cells i hi j hj

end Backspace

/-- **The terminal shows the tail of the edited text**: the cursor is behind the last
glyph that has not been taken back, and line `i` shows the `i`-th of the last rows that
fit, padded with spaces. -/
theorem terminal_shows_edited {w h : ℕ} (hwidth : 0 < w / 8) (hheight : 0 < h / 16)
    (hsize : w / 8 * (h / 16) < 2 ^ 32) (s : Screen) (heap : Memory ℕ) {calls : List Call}
    (hcalls : Guarded Layout.edit Editable (Layout.fresh hwidth) calls) :
    let t := (runCalls (terminalInit s heap w h) calls).terminal
    let r := (calls.foldl Layout.edit (Layout.fresh hwidth)).text
    t.x = r.last.length ∧ t.y = min r.rows.length (h / 16) - 1 ∧
      ∀ i < h / 16, ∀ j < w / 8,
        (t.glyphAt i j).Matches (((r.window (h / 16)).getD i [])[j]?) := by
  intro t r
  have hl := runCalls_edited (terminalInit_shows s heap hwidth hheight hsize) hcalls
  have hwindow := hl.window
  rw [hl.sized.height, hl.sized.width] at hwindow
  exact hwindow

/-- A letter is taken back in the second of two rows, and another put in its place. -/
theorem terminal_shows_edited_two_rows :
    let calls : List Call := [.char 97, .char 98, .char 99, .setFg 2, .char 8, .char 100]
    let t := (runCalls (terminalInit (Screen.boot (fun _ => 0) (fun _ => 0) 8) (fun _ => 0) 16 32)
      calls).terminal
    let r := (calls.foldl Layout.edit (Layout.fresh (show 0 < 16 / 8 by decide))).text
    t.x = r.last.length ∧ t.y = min r.rows.length (32 / 16) - 1 ∧
      ∀ i < 32 / 16, ∀ j < 16 / 8,
        (t.glyphAt i j).Matches (((r.window (32 / 16)).getD i [])[j]?) :=
  terminal_shows_edited (by decide) (by decide) (by decide) _ _ (by decide)

end OsdevX64.Console
