import OsdevX64.Session.Calls
import OsdevX64.Shell.Splitting

/-!
# A session shows its transcript

The shell and the console together refine the transcript: **after INIT and any key
events that fit the arrays of the shell, the screen is what the calls of the transcript
make of it** (`session_shows_transcript`).  The relation `Follows` carries the pending
line through the run; a timer signal changes nothing.
-/

namespace OsdevX64.Session

open ByteMemory MachineInt Words GuardedRun Kernel Console
open ShellModule

/-- The shell is in its arrays and holds the pending line, which is printable. -/
structure Follows (s : Shell) (line : List Byte) : Prop where
  inBounds : InBounds s
  holds : Holds s line
  printable : ∀ b ∈ line, IsPrint b

theorem Follows.drained {s : Shell} {line : List Byte} (h : Follows s line) :
    Follows (drained s) line :=
  ⟨⟨h.inBounds.buffer, h.inBounds.argv⟩,
    ⟨h.holds.cursor, h.holds.cells, h.holds.ne_zero, h.holds.length_le⟩, h.printable⟩

/-! ## The calls of a handler -/

/-- The calls for the words, in their order. -/
def wordOutputs (argv : ℕ → ℕ) (i left : ℕ) : List Output :=
  (List.range' i left).map fun k => .printf "%d. %s\n" [.int k, .str (argv k)]

theorem printWords_output (s : Shell) (i left : ℕ) :
    (printWords s i left).output = (wordOutputs s.argv.cell i left).reverse ++ s.output := by
  unfold wordOutputs
  induction left generalizing s i with
  | zero => rfl
  | succ left ih =>
      rw [printWords, ih, List.range'_succ, List.map_cons, List.reverse_cons, List.append_assoc]
      rfl

/-- The words that the tokeniser finds in a line. -/
theorem tokenise_words {s : Shell} {text : List Byte} {fuel : ℕ}
    (htext : HoldsText s.buffer.cell 0 text) (hwords : (words isSpace text).length ≤ argvSize)
    (hfuel : text.length < fuel) :
    ∃ t : Tokens, tokenise fuel ⟨s.buffer, s.argv, 0, 1⟩ 0 = some t ∧
      t.argc = (words isSpace text).length ∧
      ∀ i (hi : i < (words isSpace text).length), t.argv.cell i ≤ text.length ∧
        HoldsText t.buffer.cell (t.argv.cell i) (words isSpace text)[i] := by
  have hwords' : (words isSpace text).length ≤ 16 := hwords
  have hmap := words_eq_map_starts isSpace text
  have hlength : (words isSpace text).length = (wordStarts isSpace true 0 text).length := by
    rw [hmap, List.length_map]
  obtain ⟨t, ht, hargc, -, hstarts, hbuffer⟩ := tokenise_starts
    (t := ⟨s.buffer, s.argv, 0, 1⟩) hfuel htext (by
      show 0 + (wordStarts isSpace true 0 text).length + 1 < 2 ^ 32
      omega)
  refine ⟨t, ht, ?_, fun i hi => ?_⟩
  · rw [hargc, hlength]
    exact Nat.zero_add _
  · have hi' : i < (wordStarts isSpace true 0 text).length := hlength ▸ hi
    have hstart : t.argv.cell i = (wordStarts isSpace true 0 text)[i] :=
      (congrArg t.argv.cell (Nat.zero_add i)).symm.trans (hstarts i hi')
    have hlt := lt_of_mem_wordStarts (List.getElem_mem hi')
    have heq : (words isSpace text)[i] =
        wordAt isSpace text (wordStarts isSpace true 0 text)[i] := by
      simp only [hmap, List.getElem_map]
    rw [hstart, heq, hbuffer]
    exact ⟨by omega, htext.wordAt (by omega)⟩

/-- A word is no longer than its line, and made of its characters. -/
theorem word_of_line {line word : List Byte} (hword : word ∈ words isSpace line) :
    word.length ≤ line.length ∧ word ⊆ line := by
  rw [words_eq_map_starts] at hword
  obtain ⟨p, -, rfl⟩ := List.mem_map.mp hword
  have hsub : (wordAt isSpace line p).Sublist line :=
    (List.takeWhile_sublist _).trans (List.drop_sublist p line)
  exact ⟨hsub.length_le, hsub.subset⟩

section Words

variable {f : Frame} {buffer : Memory ℕ}

/-- The lines for the words. -/
theorem performs_words {argv : ℕ → ℕ} {i : ℕ} {ws : List (List Byte)} (hi : i + ws.length ≤ 16)
    (htexts : ∀ k (hk : k < ws.length), argv (i + k) < 2 ^ 64 ∧
      HoldsText buffer (argv (i + k)) ws[k])
    (hlen : ∀ word ∈ ws, word.length < shellBufferSize)
    (hprint : ∀ word ∈ ws, ∀ b ∈ word, IsPrint b) :
    Performs f buffer (wordOutputs argv i ws.length) (textCalls (wordLines i ws)) := by
  induction ws generalizing i with
  | nil => exact performs_nil
  | cons word ws ih =>
      rw [List.length_cons] at hi
      obtain ⟨hp, htext⟩ := htexts 0 (Nat.succ_pos _)
      have hrest := ih (i := i + 1) (by omega) (fun k hk => by
          have hword := htexts (k + 1) (Nat.succ_lt_succ hk)
          rw [← Nat.add_assoc, Nat.add_right_comm] at hword
          exact hword)
        (fun w hw => hlen w (List.mem_cons_of_mem _ hw))
        (fun w hw => hprint w (List.mem_cons_of_mem _ hw))
      have hfirst : Performs f buffer [.printf "%d. %s\n" [.int i, .str (argv i)]]
          (textCalls (wordLine i word)) :=
        performs_word (by omega) hp htext (hlen word List.mem_cons_self)
          (hprint word List.mem_cons_self)
      rw [wordLines, textCalls_append]
      have houtputs : wordOutputs argv i (word :: ws).length =
          [.printf "%d. %s\n" [.int i, .str (argv i)]] ++ wordOutputs argv (i + 1) ws.length := by
        unfold wordOutputs
        rw [List.length_cons, List.range'_succ, List.map_cons]
        rfl
      rw [houtputs]
      exact hfirst.append hrest

end Words

/-- What Enter calls, and what the buffer then holds. -/
theorem shellEnter_output {s s' : Shell} (h : shellEnter s = some s') {t : Tokens}
    (ht : tokenise (s.cursor + 1) ⟨s.buffer, s.argv, 0, 1⟩ 0 = some t) :
    s'.buffer = t.buffer ∧
      s'.output.reverse = s.output.reverse ++ ([.printf "\n" []] ++
        ([.printf "argc = %d\n" [.int t.argc]] ++ (wordOutputs t.argv.cell 0 t.argc ++
        [.terminalSetColor terminalGreen terminalBlack, .printf "\nImaginaryOS>" [],
          .terminalSetColor terminalWhite terminalBlack, .printf " " []]))) := by
  unfold shellEnter shellCommand at h
  simp only [call_cursor, call_buffer, call_argv] at h
  rw [ht] at h
  cases h
  -- the state in which the words are printed
  have hkeeps := printWords_keeps (({ (s.call (.printf "\n" [])) with
    buffer := t.buffer, argv := t.argv } : Shell).call (.printf "argc = %d\n" [.int t.argc])) 0
    t.argc
  refine ⟨hkeeps.2.1, ?_⟩
  unfold shellPrompt
  simp only [Shell.call, Shell.moveTo]
  rw [printWords_output]
  simp only [List.reverse_cons, List.reverse_append, List.reverse_reverse, List.append_assoc,
    List.nil_append, List.cons_append]

/-! ## One event -/

section Step

variable {f : Frame} {line : List Byte} {e : ModuleKeyEvent}

/-- **Enter prints the words of the line** and a prompt. -/
theorem enter_performs {s s' : Shell} (h : Follows s line) (hout : s.output = [])
    (hlen : line.length < shellBufferSize) (hwords : (words isSpace line).length ≤ argvSize)
    (hs' : shellEnter (s.store s.cursor 0) = some s') :
    Performs f s'.buffer.cell s'.output.reverse
      (textCalls (chars "\n") ++ textCalls (commandText line) ++ promptCalls) := by
  have hlen' : line.length < 256 := hlen
  have hwords' : (words isSpace line).length ≤ 16 := hwords
  have hfuel : line.length < (s.store s.cursor 0).cursor + 1 := by
    rw [store_cursor, h.holds.cursor]
    exact Nat.lt_succ_self _
  obtain ⟨t, ht, hargc, htexts⟩ := tokenise_words h.holds.holdsText hwords hfuel
  obtain ⟨hbuffer, houtput⟩ := shellEnter_output hs' ht
  have hempty : (s.store s.cursor 0).output = [] := hout
  have hlist : Performs f s'.buffer.cell (wordOutputs t.argv.cell 0 t.argc)
      (textCalls (wordLines 0 (words isSpace line))) := by
    rw [hargc, hbuffer]
    refine performs_words (by omega) (fun k hk => ?_) (fun word hword => ?_)
      fun word hword b hb => ?_
    · rw [Nat.zero_add]
      exact ⟨(htexts k hk).1.trans_lt (by omega), (htexts k hk).2⟩
    · exact (word_of_line hword).1.trans_lt hlen
    · exact h.printable b ((word_of_line hword).2 hb)
  have hline : Performs f s'.buffer.cell [.printf "\n" []] (textCalls (chars "\n")) :=
    performs_literal (by decide) (by decide)
  have hcount : Performs f s'.buffer.cell [.printf "argc = %d\n" [.int t.argc]]
      (textCalls (argcLine (words isSpace line).length)) := by
    rw [hargc]
    exact performs_argc (by omega)
  rw [houtput, hempty, commandText, textCalls_append, List.append_assoc, List.append_assoc]
  exact hline.append (hcount.append (hlist.append performs_prompt))

/-- A printable press gives a printable byte. -/
theorem prints_isPrint (hp : Prints e) :
    IsPrint (e.codepoint.setWidth 8) ∧ (e.codepoint.setWidth 8).toNat = e.codepoint.toNat := by
  obtain ⟨hlow, hhigh⟩ := hp
  have hbyte : (e.codepoint.setWidth 8).toNat = e.codepoint.toNat := by
    rw [BitVec.toNat_setWidth, Nat.mod_eq_of_lt (by omega)]
  unfold IsPrint
  rw [hbyte]
  exact ⟨⟨hlow, hhigh⟩, rfl⟩

/-- Editing keeps the pending line printable. -/
theorem edit_printable (h : ∀ b ∈ line, IsPrint b) : ∀ b ∈ edit line e, IsPrint b := by
  unfold edit
  split_ifs with hr hp ha hb
  · exact h
  · exact List.forall_mem_append.mpr ⟨h, fun b hb =>
      List.mem_singleton.mp hb ▸ (prints_isPrint hp).1⟩
  · exact fun b hb => absurd hb List.not_mem_nil
  · exact fun b hb => h b (List.dropLast_subset line hb)
  · exact h

/-- **One key event is answered.** -/
theorem eventKey_performs {s s' : Shell} (h : Follows s line) (hout : s.output = [])
    (hfits : Fits line e) (hs' : eventKey s e = some s') :
    Performs f s'.buffer.cell s'.output.reverse (answer line e) := by
  unfold answer
  by_cases hr : e.released = 0
  · rw [if_neg (not_not_intro hr)]
    obtain ⟨-, henter⟩ := hfits hr
    by_cases hp : Prints e
    · rw [eventKey_prints hr hp] at hs'
      cases hs'
      rw [if_pos hp, ← BitVec.ofNat_toNat 8 e.codepoint]
      show Performs f _ (Output.printf "%c" [.int e.codepoint.toNat] :: s.output).reverse _
      rw [hout]
      refine performs_char _ (Or.inr (Or.inr ?_))
      rw [BitVec.ofNat_toNat]
      exact (prints_isPrint hp).1
    · rw [if_neg hp]
      by_cases ha : e.codepoint = 10
      · rw [eventKey_enter hr ha] at hs'
        rw [if_pos ha]
        exact enter_performs h hout (henter ha).1 (henter ha).2 hs'
      · rw [if_neg ha]
        have hcursor : s.cursor > 0 ↔ line ≠ [] := by
          rw [h.holds.cursor, gt_iff_lt, List.length_pos_iff]
        by_cases hb : e.codepoint = 8 ∧ line ≠ []
        · rw [eventKey_backspace hr hb.1 (hcursor.mpr hb.2)] at hs'
          cases hs'
          rw [if_pos hb]
          show Performs f _ (Output.printf "\x08" [] :: s.output).reverse _
          rw [hout]
          exact performs_literal (by decide) (by decide)
        · rw [eventKey_ignored fun _ => ⟨hp, ha, fun h8 => hb ⟨h8.1, hcursor.mp h8.2⟩⟩] at hs'
          cases hs'
          rw [if_neg hb, hout]
          exact performs_nil
  · rw [eventKey_ignored fun hr' => absurd hr' hr] at hs'
    cases hs'
    rw [if_pos hr, hout]
    exact performs_nil

/-- A signal of a session, by what its handler calls. -/
theorem signal_eq {σ : Session} {sig : Signal} {shell : Shell}
    (hshell : signalHandler (drained σ.shell) sig = some shell) {calls : List Call}
    (hcalls : Performs f shell.buffer.cell shell.output.reverse calls) :
    signal f σ sig = some ⟨shell, runCalls σ.screen calls⟩ := by
  unfold signal
  rw [hshell]
  show (Except.toOption (shell.output.reverse.foldlM _ σ.screen)).bind _ = _
  rw [hcalls σ.screen]
  rfl

/-- A key event follows the reference. -/
theorem signal_keyboard {σ : Session} (h : Follows σ.shell line) (hfits : Fits line e) :
    ∃ σ', signal f σ (.keyboard e) = some σ' ∧ Follows σ'.shell (edit line e) ∧
      σ'.screen = runCalls σ.screen (answer line e) := by
  obtain ⟨shell, hshell⟩ := eventKey_total (drained σ.shell) e
  have hhandler : signalHandler (drained σ.shell) (.keyboard e) = some shell := hshell
  have hd := h.drained
  obtain ⟨hb, hh⟩ := event_guarded.keeps _ line e shell hd.holds hd.inBounds hfits hshell
  exact ⟨_, signal_eq hhandler (eventKey_performs hd rfl hfits hshell),
    ⟨hb, hh, edit_printable h.printable⟩, rfl⟩

/-- A tick changes nothing. -/
theorem signal_timer (f : Frame) (σ : Session) :
    signal f σ .timer = some ⟨drained σ.shell, σ.screen⟩ := by
  have hhandler : signalHandler (drained σ.shell) .timer = some (drained σ.shell) := rfl
  exact signal_eq hhandler performs_nil

theorem shellInit_output (s : Shell) :
    (shellInit s).output.reverse = s.output.reverse ++
      ([.terminalSetColor terminalRed terminalBlack] ++ ([.printf banner []] ++
        [.terminalSetColor terminalGreen terminalBlack, .printf "\nImaginaryOS>" [],
          .terminalSetColor terminalWhite terminalBlack, .printf " " []])) := by
  unfold shellInit shellPrompt banner
  simp only [Shell.call, Shell.moveTo, List.reverse_cons, List.append_assoc, List.nil_append,
    List.cons_append]

/-- INIT greets. -/
theorem signal_init (f : Frame) (argv : ℕ → ℕ) (s : Screen) :
    ∃ σ, signal f (boot argv s) .init = some σ ∧ Follows σ.shell [] ∧
      σ.screen = runCalls s greeting := by
  have hcalls : Performs f (shellInit (Shell.boot argv)).buffer.cell
      (shellInit (Shell.boot argv)).output.reverse greeting := by
    rw [shellInit_output, greeting]
    exact (performs_setColor _ _).append (performs_banner.append performs_prompt)
  have hdrained : drained (boot argv s).shell = Shell.boot argv := rfl
  have hhandler : signalHandler (drained (boot argv s).shell) .init =
      some (shellInit (Shell.boot argv)) := by
    rw [hdrained, signalHandler]
  obtain ⟨hb, hh⟩ := shellInit_holds argv
  have hsignal : signal f (boot argv s) .init = _ := signal_eq hhandler hcalls
  generalize greeting = calls at hsignal ⊢
  exact ⟨_, hsignal, ⟨hb, hh, fun b hb => absurd hb List.not_mem_nil⟩, rfl⟩

end Step

/-! ## Runs -/

/-- From any state that follows the reference. -/
theorem run_follows {f : Frame} {σ : Session} {line : List Byte} (h : Follows σ.shell line)
    {signals : List Signal} (hinit : .init ∉ signals)
    (hfits : Guarded edit Fits line (keysOf signals)) :
    ∃ σ', run f σ signals = some σ' ∧ Follows σ'.shell ((keysOf signals).foldl edit line) ∧
      σ'.screen = runCalls σ.screen (transcript line (keysOf signals)) := by
  induction signals generalizing σ line with
  | nil => exact ⟨σ, rfl, h, rfl⟩
  | cons sig signals ih =>
      have hinit' : .init ∉ signals := fun hmem => hinit (List.mem_cons_of_mem _ hmem)
      unfold run
      cases sig with
      | init => exact absurd List.mem_cons_self hinit
      | timer =>
          rw [List.foldlM_cons, signal_timer]
          exact ih h.drained hinit' hfits
      | keyboard e =>
          obtain ⟨σ₁, hσ₁, hfollows, hscreen⟩ := signal_keyboard (f := f) h hfits.1
          obtain ⟨σ', hσ', hend, hshown⟩ := ih hfollows hinit' hfits.2
          refine ⟨σ', ?_, hend, ?_⟩
          · rw [List.foldlM_cons, hσ₁]
            exact hσ'
          · rw [hshown, hscreen]
            exact (runCalls_append _ _ _).symm

/-- **A session shows its transcript**, from any screen and whatever the build. -/
theorem session_shows_transcript (f : Frame) (argv : ℕ → ℕ) (s : Screen) {signals : List Signal}
    (hinit : .init ∉ signals) (hfits : Guarded edit Fits [] (keysOf signals)) :
    ∃ σ, run f (boot argv s) (.init :: signals) = some σ ∧
      Follows σ.shell ((keysOf signals).foldl edit []) ∧
      σ.screen = runCalls s (greeting ++ transcript [] (keysOf signals)) := by
  obtain ⟨σ₀, hσ₀, hfollows, hscreen⟩ := signal_init f argv s
  obtain ⟨σ, hσ, hend, hshown⟩ := run_follows (f := f) hfollows hinit hfits
  refine ⟨σ, ?_, hend, ?_⟩
  · unfold run
    rw [List.foldlM_cons, hσ₀]
    exact hσ
  · rw [hshown, hscreen, runCalls_append]

/-- `a b`, the `b` taken back, and Enter, with a tick in between. -/
def takenBack : List Signal :=
  [.keyboard (press 97), .keyboard (press 32), .timer, .keyboard (press 98),
    .keyboard (press 8), .keyboard (press 10)]

theorem session_shows_transcript_takenBack :
    ∃ σ, run ⟨0x1000, fun _ => ⟨fun _ => 1, 0⟩⟩
        (boot (fun _ => 0) (Screen.boot (fun _ => 0) (fun _ => 0) 8))
        (.init :: takenBack) = some σ ∧
      Follows σ.shell ((keysOf takenBack).foldl edit []) ∧
      σ.screen = runCalls (Screen.boot (fun _ => 0) (fun _ => 0) 8)
        (greeting ++ transcript [] (keysOf takenBack)) :=
  session_shows_transcript _ _ _ (by decide) (by decide)

end OsdevX64.Session
