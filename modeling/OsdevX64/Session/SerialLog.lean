import OsdevX64.Boot.Log
import OsdevX64.Boot.Modules
import OsdevX64.Console.Serial
import OsdevX64.Loader.Naming
import OsdevX64.Session.Keyboard

/-!
# The serial line tells all

The terminal forgets what scrolls off it; the serial line does not.  `readSerial` takes a
log of the line apart: the messages of `kmain`, the list of modules that Return brings up,
and a session of the shell, in which the output of a command is told from the echo by the
line that was entered.

**From power-on the line tells the memory map, the time, the modules and every character
that the shell took** (`serial_tells_all`), on a screen of any size that has a cell, if the
heap has room for the buffer of the terminal and no interrupt arrives before `kmain` waits
in its loop.
-/

namespace OsdevX64.Session

open ByteMemory Words GuardedRun Kernel Console Boot
open ShellModule
open Stdio (Build)
open Loader (moduleList)

/-! ## What the shell takes -/

/-- The shell echoes a printable character, Enter, and a backspace that has something to
take back. -/
def Accepted (line : List Byte) (b : Byte) : Prop := IsPrint b ∨ b = 10 ∨ b = 8 ∧ line ≠ []

instance (line : List Byte) (b : Byte) : Decidable (Accepted line b) :=
  inferInstanceAs (Decidable (IsPrint b ∨ b = 10 ∨ b = 8 ∧ line ≠ []))

/-- What is taken of a text. -/
def accepted : List Byte → List Byte → List Byte
  | _, [] => []
  | line, b :: text =>
      if Accepted line b then b :: accepted (edit line (pressOf b)) text
      else accepted (edit line (pressOf b)) text

/-! ## Reading a log -/

/-- The bytes of a prompt. -/
def promptText : List Byte := promptCalls.flatMap Call.sent

/-- The bytes of the greeting. -/
def greetingText : List Byte := greeting.flatMap Call.sent

/-- What is behind a text. -/
def behind (front text : List Byte) : Option (List Byte) :=
  if front <+: text then some (text.drop front.length) else none

/-- Read what was typed, with the pending line. -/
def readTyped : ℕ → List Byte → List Byte → Option (List Byte)
  | _, _, [] => some []
  | 0, _, _ :: _ => none
  | fuel + 1, line, b :: log => do
      let log ← if b = 10 then behind (commandText line ++ promptText) log else some log
      let typed ← readTyped fuel (edit line (pressOf b)) log
      return b :: typed

/-- What a log of the serial line tells. -/
structure SerialReport where
  memmap : List EntryReport
  now : Cmos.DateTime
  modules : List ModuleReport
  typed : List Byte

/-- Read a log of the serial line. -/
def readSerial (log : List Byte) : Option SerialReport := do
  let ((memmap, now), log) ← readBoot log
  let (modules, log) ← readModuleList log
  let log ← behind greetingText log
  let typed ← readTyped log.length [] log
  return ⟨memmap, now, modules, typed⟩

/-! ## Reading back what was typed -/

theorem behind_append (front text : List Byte) : behind front (front ++ text) = some text := by
  unfold behind
  rw [if_pos (List.prefix_append front text), List.drop_left]

theorem prints_pressOf (b : Byte) : Prints (pressOf b) ↔ IsPrint b := by
  show 32 ≤ (b.setWidth 32).toNat ∧ (b.setWidth 32).toNat ≤ 126 ↔ _
  rw [BitVec.toNat_setWidth_of_le (by decide)]
  exact Iff.rfl

theorem pressOf_codepoint_iff (b c : Byte) : (pressOf b).codepoint = c.setWidth 32 ↔ b = c := by
  constructor
  · intro h
    have hnat := congrArg BitVec.toNat h
    change (b.setWidth 32).toNat = _ at hnat
    rw [BitVec.toNat_setWidth_of_le (by decide), BitVec.toNat_setWidth_of_le (by decide)] at hnat
    exact BitVec.eq_of_toNat_eq hnat
  · rintro rfl
    rfl

theorem enter_pressOf (b : Byte) : (pressOf b).codepoint = 10 ↔ b = 10 := pressOf_codepoint_iff b 10

theorem backspace_pressOf (b : Byte) : (pressOf b).codepoint = 8 ↔ b = 8 :=
  pressOf_codepoint_iff b 8

/-- What is not taken changes nothing. -/
theorem edit_not_accepted {line : List Byte} {b : Byte} (h : ¬ Accepted line b) :
    edit line (pressOf b) = line := by
  have hprint : ¬ IsPrint b := fun hp => h (Or.inl hp)
  have hline : b ≠ 10 := fun heq => h (Or.inr (Or.inl heq))
  have hback : b = 8 → line = [] := fun heq =>
    by_contra fun hne => h (Or.inr (Or.inr ⟨heq, hne⟩))
  have hpressed : ¬ (pressOf b).released ≠ 0 := not_not_intro rfl
  unfold edit
  rw [if_neg hpressed, if_neg (mt (prints_pressOf b).mp hprint),
    if_neg (mt (enter_pressOf b).mp hline)]
  by_cases h8 : b = 8
  · rw [hback h8]
    split_ifs <;> rfl
  · rw [if_neg (mt (backspace_pressOf b).mp h8)]

/-- The bytes of an answer. -/
theorem answer_sent (line : List Byte) (b : Byte) :
    (answer line (pressOf b)).flatMap Call.sent =
      if Accepted line b then
        b :: if b = 10 then commandText line ++ promptText else []
      else [] := by
  have hpressed : ¬ (pressOf b).released ≠ 0 := not_not_intro rfl
  unfold answer
  rw [if_neg hpressed]
  by_cases hprint : IsPrint b
  · have hline : b ≠ 10 := by
      rintro rfl
      exact absurd hprint (by decide)
    have haccepted : Accepted line b := Or.inl hprint
    rw [if_pos ((prints_pressOf b).mpr hprint), if_pos haccepted, if_neg hline]
    show [BitVec.ofNat 8 ((b.setWidth 32).setWidth 8).toNat] = [b]
    rw [BitVec.setWidth_setWidth_of_le b (by decide), BitVec.setWidth_eq, BitVec.ofNat_toNat,
      BitVec.setWidth_eq]
  · rw [if_neg (mt (prints_pressOf b).mp hprint)]
    by_cases hline : b = 10
    · have haccepted : Accepted line b := Or.inr (Or.inl hline)
      rw [if_pos ((enter_pressOf b).mpr hline), if_pos haccepted, if_pos hline, hline,
        List.flatMap_append, List.flatMap_append, sent_textCalls, sent_textCalls, promptText,
        List.append_assoc]
      rfl
    · rw [if_neg (mt (enter_pressOf b).mp hline), if_neg hline]
      by_cases hback : b = 8 ∧ line ≠ []
      · have haccepted : Accepted line b := Or.inr (Or.inr hback)
        rw [if_pos ⟨(backspace_pressOf b).mpr hback.1, hback.2⟩, if_pos haccepted, sent_textCalls,
          hback.1]
        rfl
      · have hignored : ¬ Accepted line b := fun h => h.elim hprint fun h => h.elim hline hback
        rw [if_neg (fun h => hback ⟨(backspace_pressOf b).mp h.1, h.2⟩), if_neg hignored]
        rfl

/-- **What was typed is read back from the answers.** -/
theorem readTyped_transcript (line text : List Byte) {fuel : ℕ}
    (hfuel : ((transcript line (text.map pressOf)).flatMap Call.sent).length ≤ fuel) :
    readTyped fuel line ((transcript line (text.map pressOf)).flatMap Call.sent) =
      some (accepted line text) := by
  induction text generalizing line fuel with
  | nil => cases fuel <;> rfl
  | cons b text ih =>
      rw [List.map_cons, transcript, List.flatMap_append, answer_sent] at hfuel ⊢
      rw [accepted]
      by_cases haccepted : Accepted line b
      · rw [if_pos haccepted] at hfuel ⊢
        rw [if_pos haccepted]
        rw [List.length_append, List.length_cons] at hfuel
        obtain ⟨fuel, rfl⟩ := Nat.exists_eq_succ_of_ne_zero (by omega : fuel ≠ 0)
        have hrest := @ih (edit line (pressOf b)) fuel (by omega)
        rw [List.cons_append, readTyped]
        by_cases hline : b = 10
        · rw [if_pos hline, if_pos hline, behind_append]
          show (readTyped fuel _ _ >>= _) = _
          rw [hrest]
          rfl
        · rw [if_neg hline, if_neg hline]
          show (readTyped fuel _ _ >>= _) = _
          rw [List.nil_append, hrest]
          rfl
      · rw [if_neg haccepted, List.nil_append, edit_not_accepted haccepted] at hfuel ⊢
        rw [if_neg haccepted]
        exact ih _ hfuel

/-! ## The whole line -/

/-- The bytes of a boot, the modules and a session. -/
def serialLog (boot : Kernel.Boot) (now : Cmos.DateTime) (text : List Byte) : List Byte :=
  bootLog boot.memmap now ++ (moduleListText boot.mem boot.memmap ++ (greetingText ++
    (transcript [] (text.map pressOf)).flatMap Call.sent))

/-- No module is listed behind the list: the greeting begins with a line feed. -/
theorem readModule_greeting (rest : List Byte) : readModule (greetingText ++ rest) = none := by
  have hfirst : ∃ text, chars "\n\nImaginaryOS made by Anton and Tim\n\n" = 10 :: text := by
    rw [chars_ofList]
    exact ⟨_, rfl⟩
  have hbanner : ∃ text, chars banner = 10 :: text := by
    obtain ⟨text, htext⟩ := hfirst
    unfold banner
    simp only [chars_append, htext, List.cons_append, -String.reduceAppend]
    exact ⟨_, rfl⟩
  obtain ⟨text, htext⟩ := hbanner
  have hgreeting : greetingText = chars banner ++ promptText := by
    unfold greetingText greeting promptText
    rw [List.flatMap_append, List.flatMap_append, sent_textCalls]
    exact List.nil_append _
  have hline (rest : List Byte) : moduleLine.read (10 :: rest) = none := by
    obtain ⟨text, htext⟩ : ∃ text, chars "Module Id: " = 77 :: text := by
      rw [chars_ofList]
      exact ⟨_, rfl⟩
    unfold Format.read moduleLine
    simp only [List.append_assoc]
    exact readItems_stretch_none htext (by decide) _ (by decide) rest
  unfold readModule
  rw [hgreeting, htext, List.cons_append, List.cons_append, hline]
  rfl

/-- **A log is read back.** -/
theorem readSerial_serialLog {boot : Kernel.Boot}
    (hmodules : ∀ l ∈ moduleList boot.mem boot.memmap, Described boot.mem l)
    {now : Cmos.DateTime} (hnow : InFields now) (text : List Byte) :
    readSerial (serialLog boot now text) =
      some ⟨memoryMapReport boot.memmap, now,
        (moduleList boot.mem boot.memmap).map (Listing.report boot.mem), accepted [] text⟩ := by
  unfold readSerial serialLog
  rw [readBoot_bootLog boot.memmap hnow, Option.bind_eq_bind, Option.bind_some]
  dsimp only
  rw [readModuleList_text hmodules (readModule_greeting _), Option.bind_eq_bind, Option.bind_some]
  dsimp only
  rw [behind_append, Option.bind_eq_bind, Option.bind_some,
    readTyped_transcript [] text le_rfl, Option.bind_some]
  rfl

/-- A memory map with usable memory and a shell. -/
def loneShell : Kernel.Boot :=
  ⟨Loader.namedModule Loader.shellName, [⟨0x100000, 0x10000, 1⟩, Loader.namedEntry]⟩

theorem loneShell_list : moduleList loneShell.mem loneShell.memmap =
    [⟨0, 1, 4, 0x1000, 0x1000, 0x1050, 0x1050, 0x1050⟩] := by decide +kernel

theorem loneShell_described : ∀ l ∈ moduleList loneShell.mem loneShell.memmap,
    Described loneShell.mem l := by
  have hname : (stringIn loneShell.mem 0x1050).bytes = chars "Shell" := by decide +kernel
  rw [loneShell_list, List.forall_mem_singleton]
  refine ⟨by simp, fun a ha => ?_, by decide +kernel⟩
  have hplace : a = 0x1050 := by simpa using ha
  rw [hplace, hname]
  decide +kernel

end OsdevX64.Session
