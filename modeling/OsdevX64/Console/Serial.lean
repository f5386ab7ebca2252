import OsdevX64.Console.Messages

/-!
# The serial line

`terminal_char` sends every character to the serial port before it draws it.  Nothing else
does: putting, erasing and scrolling redraw cells, and colours are not sent.  **The serial
line is the log of all characters**, whatever the screen has lost (`log_runCalls`).
-/

namespace OsdevX64.Console

open ByteMemory MachineInt

/-- The bytes that were sent, in order. -/
def Screen.log (s : Screen) : List Byte := s.serial.reverse.map (BitVec.ofNat 8)

/-- The byte that a call sends. -/
def Call.sent : Call → List Byte
  | .char c => [BitVec.ofNat 8 c]
  | _ => []

/-! ## What sends nothing -/

theorem terminalCursor_serial (s : Screen) (color : ℕ) :
    (terminalCursor s color).serial = s.serial := by
  unfold terminalCursor
  dsimp only
  split_ifs <;> rfl

theorem redraw_serial (s : Screen) : (redraw s).serial = s.serial := by
  unfold redraw
  refine List.foldlRecOn (motive := fun r : Screen => r.serial = s.serial) _ _ rfl ?_
  intro r hr y _
  refine List.foldlRecOn (motive := fun r : Screen => r.serial = s.serial) _ _ hr ?_
  exact fun q hq x _ => hq

theorem putAdvance_serial (s : Screen) (c : ℕ) : (putAdvance s c).serial = s.serial := by
  rw [putAdvance_eq]
  split_ifs <;> rfl

/-! ## What is sent -/

theorem terminalChar_serial (s : Screen) (c : ℕ) :
    (terminalChar s c).serial = u8 c :: s.serial := by
  have hbranch (q : Screen) : (if c = 8 then backspace q else if c = 10 then newline q
      else putAdvance q c).serial = q.serial := by
    split_ifs
    · rfl
    · rfl
    · exact putAdvance_serial q c
  have hscroll (q : Screen) :
      (if q.terminal.y ≥ q.terminal.height then scroll q else q).serial = q.serial := by
    split_ifs
    · exact redraw_serial (q.setBuffer (scrollBuffer q.terminal))
    · rfl
  unfold terminalChar
  dsimp only
  rw [terminalCursor_serial, hscroll, hbranch]
  exact congrArg (u8 c :: ·) (terminalCursor_serial s s.terminal.bg)

theorem log_apply (s : Screen) (call : Call) : (call.apply s).log = s.log ++ call.sent := by
  cases call with
  | char c =>
      have hbyte : BitVec.ofNat 8 (u8 c) = BitVec.ofNat 8 c :=
        BitVec.eq_of_toNat_eq (Nat.mod_mod_of_dvd c dvd_rfl)
      unfold Screen.log
      rw [Call.apply, terminalChar_serial, List.reverse_cons, List.map_append]
      exact congrArg (fun b => _ ++ [b]) hbyte
  | setColor fg bg => exact (List.append_nil _).symm
  | setFg fg => exact (List.append_nil _).symm
  | setBg bg => exact (List.append_nil _).symm

/-- **Every character of a run is on the serial line**, in its order. -/
theorem log_runCalls (s : Screen) (calls : List Call) :
    (runCalls s calls).log = s.log ++ calls.flatMap Call.sent := by
  induction calls generalizing s with
  | nil => exact (List.append_nil _).symm
  | cons call calls ih =>
      show (runCalls (call.apply s) calls).log = _
      rw [ih, log_apply, List.append_assoc, List.flatMap_cons]

/-- A text is sent as it is. -/
theorem sent_textCalls (text : List Byte) : (textCalls text).flatMap Call.sent = text := by
  unfold textCalls
  rw [List.flatMap_map]
  refine (List.flatMap_congr fun b _ => ?_).trans (List.flatMap_singleton' text)
  show [BitVec.ofNat 8 b.toNat] = [b]
  rw [BitVec.ofNat_toNat, BitVec.setWidth_eq]

theorem log_text (s : Screen) (text : List Byte) :
    (runCalls s (textCalls text)).log = s.log ++ text := by
  rw [log_runCalls, sent_textCalls]

end OsdevX64.Console
