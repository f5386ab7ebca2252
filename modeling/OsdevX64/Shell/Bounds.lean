import OsdevX64.Lib.GuardedRun
import OsdevX64.Shell.Tokeniser

/-!
# When the shell stays inside its arrays

Nothing stops the shell from storing a 257th character or a 17th word.  The
reference editor knows the pending line and no arrays; `Fits` is the condition
on it under which one key event stays inside them.

`event_guarded` has the step lemma in both directions: under `Fits` the writes
are in range and the buffer holds the pending line, without it a write is out of
range.  So a run stays inside the arrays exactly when every event fits
(`in_bounds_iff_fits`).
-/

namespace OsdevX64.ShellModule

open ByteMemory MachineInt Words GuardedRun Kernel

/-- Every write so far was inside `shell.Buffer` or inside `argv`. -/
structure InBounds (s : Shell) : Prop where
  buffer : ∀ p ∈ s.buffer.writes, p < shellBufferSize
  argv : ∀ p ∈ s.argv.writes, p < argvSize

/-! ## The reference editor -/

/-- The event is the press of a printable character. -/
def Prints (e : ModuleKeyEvent) : Prop := 32 ≤ e.codepoint.toNat ∧ e.codepoint.toNat ≤ 126

instance (e : ModuleKeyEvent) : Decidable (Prints e) := by
  unfold Prints
  infer_instance

/-- The pending line after an event. -/
def edit (line : List Byte) (e : ModuleKeyEvent) : List Byte :=
  if e.released ≠ 0 then line
  else if Prints e then line ++ [e.codepoint.setWidth 8]
  else if e.codepoint = 10 then []
  else if e.codepoint = 8 then line.dropLast
  else line

/-- A press fits when its character does, Enter when the line and its NUL do and
the line has no more words than `argv` has slots. -/
def Fits (line : List Byte) (e : ModuleKeyEvent) : Prop :=
  e.released = 0 →
    (Prints e → line.length < shellBufferSize) ∧
    (e.codepoint = 10 → line.length < shellBufferSize ∧ (words isSpace line).length ≤ argvSize)

instance (line : List Byte) (e : ModuleKeyEvent) : Decidable (Fits line e) := by
  unfold Fits
  infer_instance

/-- The buffer holds the pending line up to the cursor. -/
structure Holds (s : Shell) (line : List Byte) : Prop where
  cursor : s.cursor = line.length
  cells : ∀ k (h : k < line.length), s.buffer.cell k = (line)[k]
  ne_zero : ∀ b ∈ line, b ≠ 0
  length_le : line.length ≤ shellBufferSize

/-! ## One event -/

theorem isprint_iff (e : ModuleKeyEvent) : isprint e.codepoint.toInt = true ↔ Prints e := by
  unfold isprint Prints
  rw [Bool.and_eq_true, decide_eq_true_iff, decide_eq_true_iff, BitVec.toInt_eq_toNat_cond]
  split_ifs <;> omega

/-- A printable press. -/
theorem eventKey_prints {s : Shell} {e : ModuleKeyEvent} (hr : e.released = 0) (hp : Prints e) :
    eventKey s e = some (typeChar s e.codepoint) := by
  unfold eventKey
  rw [if_neg (not_not_intro hr), if_pos ((isprint_iff e).mpr hp)]

/-- An Enter. -/
theorem eventKey_enter {s : Shell} {e : ModuleKeyEvent} (hr : e.released = 0)
    (ha : e.codepoint = 10) :
    eventKey s e = shellEnter (s.store s.cursor 0) := by
  have hp : ¬ Prints e := by
    unfold Prints
    rw [ha]
    decide
  unfold eventKey
  rw [if_neg (not_not_intro hr), if_neg (mt (isprint_iff e).mp hp), if_pos ha]

/-- A backspace on a line that is not empty. -/
theorem eventKey_backspace {s : Shell} {e : ModuleKeyEvent} (hr : e.released = 0)
    (ha : e.codepoint = 8) (hc : s.cursor > 0) :
    eventKey s e = some (eraseChar s) := by
  have hp : ¬ Prints e := by
    unfold Prints
    rw [ha]
    decide
  unfold eventKey
  rw [if_neg (not_not_intro hr), if_neg (mt (isprint_iff e).mp hp), ha, if_neg (by decide),
    if_pos ⟨rfl, hc⟩]

/-- Any other event does nothing. -/
theorem eventKey_ignored {s : Shell} {e : ModuleKeyEvent}
    (h : e.released = 0 → ¬ Prints e ∧ e.codepoint ≠ 10 ∧ ¬ (e.codepoint = 8 ∧ s.cursor > 0)) :
    eventKey s e = some s := by
  unfold eventKey
  split_ifs with hr hp ha hb
  · rfl
  · exact absurd ((isprint_iff e).mp hp) (h (by simpa using hr)).1
  · exact absurd ha (h (by simpa using hr)).2.1
  · exact absurd hb (h (by simpa using hr)).2.2
  · rfl

/-- `shell_enter` returns, since there is a NUL at the cursor. -/
theorem shellEnter_total (s : Shell) : ∃ s', shellEnter (s.store s.cursor 0) = some s' := by
  have hnul : (s.store s.cursor 0).buffer.cell (0 + s.cursor) = 0 := by
    rw [Nat.zero_add]
    exact Function.update_self _ _ _
  obtain ⟨t, ht⟩ := tokenise_total (t := ⟨(s.store s.cursor 0).buffer, s.argv, 0, 1⟩)
    (Nat.lt_succ_self s.cursor) hnul
  unfold shellEnter shellCommand
  exact ⟨_, by
    simp only [call_cursor, call_buffer, call_argv, store_cursor, store_argv]
    rw [ht]
    rfl⟩

/-- What `shell_enter` leaves, in terms of the tokeniser. -/
theorem shellEnter_fields {s s' : Shell} (h : shellEnter s = some s') :
    ∃ t, tokenise (s.cursor + 1) ⟨s.buffer, s.argv, 0, 1⟩ 0 = some t ∧ s'.cursor = 0 ∧
      s'.buffer = t.buffer ∧ s'.argv.writes = t.argv.writes := by
  unfold shellEnter shellCommand at h
  simp only [call_cursor, call_buffer, call_argv] at h
  cases ht : tokenise (s.cursor + 1) ⟨s.buffer, s.argv, 0, 1⟩ 0 with
  | none =>
      rw [ht] at h
      exact absurd h (Option.some_ne_none _).symm
  | some t =>
      rw [ht] at h
      refine ⟨t, rfl, ?_⟩
      cases h
      obtain ⟨-, hbuffer, hargv⟩ := printWords_keeps
        (({ (s.call (.printf "\n" [])) with buffer := t.buffer, argv := t.argv } : Shell).call
          (.printf "argc = %d\n" [.int t.argc])) 0 t.argc
      exact ⟨rfl, hbuffer, hargv⟩

/-! ## No write is forgotten -/

theorem shellEnter_suffix {s s' : Shell} (h : shellEnter s = some s') :
    s.buffer.writes <:+ s'.buffer.writes ∧ s.argv.writes <:+ s'.argv.writes := by
  obtain ⟨t, ht, -, hbuffer, hargv⟩ := shellEnter_fields h
  rw [hbuffer, hargv]
  exact tokenise_suffix ht

theorem eventKey_suffix {s s' : Shell} {e : ModuleKeyEvent} (h : eventKey s e = some s') :
    s.buffer.writes <:+ s'.buffer.writes ∧ s.argv.writes <:+ s'.argv.writes := by
  unfold eventKey at h
  split_ifs at h
  · cases h
    exact ⟨List.suffix_rfl, List.suffix_rfl⟩
  · cases h
    rw [typeChar_buffer, typeChar_argv]
    exact ⟨List.suffix_cons _ _, List.suffix_rfl⟩
  · obtain ⟨hbuffer, hargv⟩ := shellEnter_suffix h
    exact ⟨(List.suffix_cons _ _).trans hbuffer, hargv⟩
  · cases h
    rw [eraseChar_buffer, eraseChar_argv]
    exact ⟨List.suffix_cons _ _, List.suffix_rfl⟩
  · cases h
    exact ⟨List.suffix_rfl, List.suffix_rfl⟩

theorem eventKey_total (s : Shell) (e : ModuleKeyEvent) : ∃ s', eventKey s e = some s' := by
  unfold eventKey
  split_ifs
  · exact ⟨_, rfl⟩
  · exact ⟨_, rfl⟩
  · exact shellEnter_total s
  · exact ⟨_, rfl⟩
  · exact ⟨_, rfl⟩

/-! ## Editing the pending line -/

section Line

variable {s s' : Shell} {line : List Byte} {e : ModuleKeyEvent}

/-- The line on which Enter runs the tokeniser. -/
theorem Holds.holdsText (h : Holds s line) :
    HoldsText (s.store s.cursor 0).buffer.cell 0 line where
  cells k hk := by
    rw [← h.cells k hk, Nat.zero_add, store_buffer, Tracked.cell_write]
    exact Function.update_of_ne (by rw [h.cursor]; exact Nat.ne_of_lt hk) _ _
  ne_zero := h.ne_zero
  nul := by
    rw [Nat.zero_add, ← h.cursor]
    exact Function.update_self _ _ _

theorem prints_ne_zero (hp : Prints e) : e.codepoint.setWidth 8 ≠ (0 : Byte) := by
  obtain ⟨hlow, hhigh⟩ := hp
  intro hzero
  have htoNat : (e.codepoint.setWidth 8).toNat = 0 := congrArg BitVec.toNat hzero
  rw [BitVec.toNat_setWidth, Nat.mod_eq_of_lt (by omega)] at htoNat
  omega

theorem prints_keeps (h : Holds s line) (hb : InBounds s) (hp : Prints e)
    (hlen : line.length < shellBufferSize) :
    InBounds (typeChar s e.codepoint) ∧
      Holds (typeChar s e.codepoint) (line ++ [e.codepoint.setWidth 8]) := by
  have hlen' : line.length < 256 := hlen
  have hcursor : u32 (s.cursor + 1) = line.length + 1 := by
    rw [h.cursor]
    exact u32_of_lt (by omega)
  refine ⟨⟨fun p hp => ?_, hb.argv⟩, ?_, ?_, ?_, ?_⟩
  · rw [typeChar_buffer] at hp
    rcases List.mem_cons.mp hp with rfl | hp
    · rwa [h.cursor]
    · exact hb.buffer p hp
  · rw [typeChar_cursor, hcursor, List.length_append, List.length_singleton]
  · intro k hk
    rw [List.length_append, List.length_singleton] at hk
    rw [typeChar_buffer, Tracked.cell_write, h.cursor]
    rcases Nat.lt_succ_iff_lt_or_eq.mp hk with hk | rfl
    · rw [Function.update_of_ne (Nat.ne_of_lt hk), List.getElem_append_left hk, h.cells k hk]
    · rw [Function.update_self, List.getElem_concat_length rfl]
  · intro b hb
    rcases List.mem_append.mp hb with hb | hb
    · exact h.ne_zero b hb
    · rw [List.mem_singleton.mp hb]
      exact prints_ne_zero hp
  · rw [List.length_append, List.length_singleton]
    exact hlen

theorem backspace_keeps (h : Holds s line) (hb : InBounds s) (hc : s.cursor > 0) :
    InBounds (eraseChar s) ∧ Holds (eraseChar s) line.dropLast := by
  have hcursor := h.cursor
  have hlen : line.length ≤ 256 := h.length_le
  have hback : sub32 s.cursor 1 = line.length - 1 := by
    rw [sub32_of_le hc, hcursor]
  refine ⟨⟨fun p hp => ?_, hb.argv⟩, ?_, ?_, ?_, ?_⟩
  · rw [eraseChar_buffer, hback] at hp
    rcases List.mem_cons.mp hp with rfl | hp
    · show line.length - 1 < 256
      omega
    · exact hb.buffer p hp
  · rw [eraseChar_cursor, hback, List.length_dropLast]
  · intro k hk
    rw [List.length_dropLast] at hk
    rw [List.getElem_dropLast, eraseChar_buffer, hback, Tracked.cell_write,
      Function.update_of_ne (Nat.ne_of_lt hk)]
    exact h.cells k (by omega)
  · exact fun b hb => h.ne_zero b (List.dropLast_subset line hb)
  · rw [List.length_dropLast]
    exact (Nat.sub_le _ 1).trans h.length_le

/-- What Enter writes on a line that fits the buffer. -/
theorem enter_spec (h : Holds s line) (hlen : line.length < shellBufferSize)
    (hs' : shellEnter (s.store s.cursor 0) = some s') :
    s'.cursor = 0 ∧
      s'.argv.writes = (List.range' 0 (words isSpace line).length).reverse ++ s.argv.writes ∧
      ∀ q ∈ s'.buffer.writes, q ∈ s.buffer.writes ∨ q ≤ line.length := by
  have hlen' : line.length < 256 := hlen
  have hfuel : line.length < s.cursor + 1 := by
    rw [h.cursor]
    exact Nat.lt_succ_self _
  obtain ⟨t, ht, hcursor, hbuffer, hargv⟩ := shellEnter_fields hs'
  obtain ⟨t', ht', hargv', hbuffer'⟩ := tokenise_spec
    (t := ⟨(s.store s.cursor 0).buffer, s.argv, 0, 1⟩) hfuel h.holdsText (by dsimp only; omega)
  have heq : t = t' := Option.some_inj.mp (ht.symm.trans ht')
  refine ⟨hcursor, ?_, fun q hq => ?_⟩
  · rw [hargv, heq, hargv', length_words]
    rfl
  · rw [hbuffer, heq] at hq
    rcases hbuffer' q hq with hq | hq
    · rcases List.mem_cons.mp hq with rfl | hq
      · exact Or.inr h.cursor.le
      · exact Or.inl hq
    · exact Or.inr (by omega)

theorem enter_keeps (h : Holds s line) (hb : InBounds s) (hlen : line.length < shellBufferSize)
    (hwords : (words isSpace line).length ≤ argvSize)
    (hs' : shellEnter (s.store s.cursor 0) = some s') : InBounds s' ∧ Holds s' [] := by
  obtain ⟨hcursor, hargv, hbuffer⟩ := enter_spec h hlen hs'
  refine ⟨⟨fun p hp => ?_, fun p hp => ?_⟩, hcursor, ?_, ?_, Nat.zero_le _⟩
  · rcases hbuffer p hp with hp | hp
    · exact hb.buffer p hp
    · exact Nat.lt_of_le_of_lt hp hlen
  · rw [hargv] at hp
    rcases List.mem_append.mp hp with hp | hp
    · have hlt := (List.mem_range'_1.mp (List.mem_reverse.mp hp)).2
      rw [Nat.zero_add] at hlt
      exact Nat.lt_of_lt_of_le hlt hwords
    · exact hb.argv p hp
  · exact fun k hk => absurd hk (Nat.not_lt_zero k)
  · exact fun b hb => absurd hb List.not_mem_nil

/-- Enter on a line that is too long, or has too many words. -/
theorem enter_breaks (h : Holds s line)
    (hbad : ¬ (line.length < shellBufferSize ∧ (words isSpace line).length ≤ argvSize))
    (hs' : shellEnter (s.store s.cursor 0) = some s') : ¬ InBounds s' := by
  intro hb'
  -- Enter stores its NUL at the cursor, so a good end bounds the line first
  have hlen : line.length < shellBufferSize := by
    have hmem := (shellEnter_suffix hs').1.subset (List.mem_cons_self (a := s.cursor))
    rw [← h.cursor]
    exact hb'.buffer _ hmem
  have hwords : argvSize < (words isSpace line).length :=
    Nat.lt_of_not_le fun hle => hbad ⟨hlen, hle⟩
  obtain ⟨-, hargv, -⟩ := enter_spec h hlen hs'
  have hmem : argvSize ∈ s'.argv.writes := by
    rw [hargv]
    refine List.mem_append_left _ (List.mem_reverse.mpr (List.mem_range'_1.mpr ⟨Nat.zero_le _, ?_⟩))
    rwa [Nat.zero_add]
  exact absurd (hb'.argv _ hmem) (Nat.lt_irrefl _)

end Line

/-! ## Runs -/

/-- **One event**, with and without its guard. -/
theorem event_guarded : GuardedBy eventKey InBounds edit Fits Holds where
  total := eventKey_total
  stays_bad s e s' h hb := by
    obtain ⟨hbuffer, hargv⟩ := eventKey_suffix h
    exact ⟨fun p hp => hb.buffer p (hbuffer.subset hp), fun p hp => hb.argv p (hargv.subset hp)⟩
  keeps s line e s' h hb hfits hs' := by
    unfold edit
    by_cases hr : e.released = 0
    · rw [if_neg (not_not_intro hr)]
      obtain ⟨hprints, henter⟩ := hfits hr
      by_cases hp : Prints e
      · rw [eventKey_prints hr hp] at hs'
        cases hs'
        rw [if_pos hp]
        exact prints_keeps h hb hp (hprints hp)
      · rw [if_neg hp]
        by_cases ha : e.codepoint = 10
        · rw [eventKey_enter hr ha] at hs'
          rw [if_pos ha]
          exact enter_keeps h hb (henter ha).1 (henter ha).2 hs'
        · rw [if_neg ha]
          by_cases ha' : e.codepoint = 8
          · rw [if_pos ha']
            -- with nothing to erase the event is ignored, and the line is empty
            by_cases hc : s.cursor > 0
            · rw [eventKey_backspace hr ha' hc] at hs'
              cases hs'
              exact backspace_keeps h hb hc
            · rw [eventKey_ignored fun _ => ⟨hp, ha, fun hboth => hc hboth.2⟩] at hs'
              cases hs'
              have hnil : line = [] := by
                rw [← List.length_eq_zero_iff, ← h.cursor]
                exact Nat.eq_zero_of_not_pos hc
              rw [hnil] at h ⊢
              exact ⟨hb, h⟩
          · rw [eventKey_ignored fun _ => ⟨hp, ha, fun hboth => ha' hboth.1⟩] at hs'
            cases hs'
            rw [if_neg ha']
            exact ⟨hb, h⟩
    · rw [eventKey_ignored fun hr' => absurd hr' hr] at hs'
      cases hs'
      rw [if_pos hr]
      exact ⟨hb, h⟩
  breaks s line e s' h hb hfits hs' := by
    unfold Fits at hfits
    push Not at hfits
    obtain ⟨hr, hfits⟩ := hfits
    -- either the character does not fit, or Enter is pressed on a line that does not
    by_cases hprints : Prints e → line.length < shellBufferSize
    · obtain ⟨ha, hbad⟩ := hfits hprints
      rw [eventKey_enter hr ha] at hs'
      refine enter_breaks h (fun hgood => ?_) hs'
      exact absurd hgood.2 (Nat.not_le_of_lt (hbad hgood.1))
    · push Not at hprints
      obtain ⟨hp, hlen⟩ := hprints
      rw [eventKey_prints hr hp] at hs'
      cases hs'
      intro hb'
      have hcursor := hb'.buffer s.cursor List.mem_cons_self
      rw [h.cursor] at hcursor
      exact absurd hcursor (Nat.not_lt_of_le hlen)

/-- After INIT the pending line is empty. -/
theorem shellInit_holds (stack : ℕ → ℕ) :
    InBounds (shellInit (Shell.boot stack)) ∧ Holds (shellInit (Shell.boot stack)) [] := by
  refine ⟨⟨?_, ?_⟩, rfl, ?_, ?_, Nat.zero_le _⟩
  · exact fun p hp => absurd hp List.not_mem_nil
  · exact fun p hp => absurd hp List.not_mem_nil
  · exact fun k hk => absurd hk (Nat.not_lt_zero k)
  · exact fun b hb => absurd hb List.not_mem_nil

theorem run_eq (stack : ℕ → ℕ) (events : List ModuleKeyEvent) :
    run stack events = events.foldlM eventKey (shellInit (Shell.boot stack)) := by
  unfold run
  rw [List.foldlM_cons]
  show (events.map Signal.keyboard).foldlM signalHandler (shellInit (Shell.boot stack)) = _
  generalize shellInit (Shell.boot stack) = s
  induction events generalizing s with
  | nil => rfl
  | cons e events ih =>
      rw [List.map_cons, List.foldlM_cons, List.foldlM_cons]
      exact bind_congr fun s' => ih s'

/-- **The shell stays inside its arrays exactly when every event fits.** -/
theorem in_bounds_iff_fits (stack : ℕ → ℕ) (events : List ModuleKeyEvent) :
    ∃ s, run stack events = some s ∧ (InBounds s ↔ Guarded edit Fits [] events) := by
  obtain ⟨s, hs⟩ := event_guarded.exists_run (shellInit (Shell.boot stack)) events
  obtain ⟨hb, hholds⟩ := shellInit_holds stack
  refine ⟨s, ?_, (event_guarded.good_iff hholds hb hs).1⟩
  rw [run_eq]
  exact hs

/-- The press of a key that gives the character `c`. -/
def press (c : BitVec 32) : ModuleKeyEvent := ⟨c, c, 0⟩

/-- Seventeen words on one line, and Enter. -/
def seventeenWords : List ModuleKeyEvent :=
  (List.replicate 17 [press 97, press 32]).flatten ++ [press 10]

/-- The seventeenth word goes to `argv[16]`. -/
theorem seventeen_words_out_of_bounds :
    ¬ ∀ (stack : ℕ → ℕ) (events : List ModuleKeyEvent) (s : Shell),
      run stack events = some s → InBounds s := by
  intro h
  obtain ⟨s, hs⟩ := event_guarded.exists_run (shellInit (Shell.boot fun _ => 0)) seventeenWords
  obtain ⟨hb, hholds⟩ := shellInit_holds fun _ => 0
  have hfits := (event_guarded.good_iff hholds hb hs).1.mp
    (h (fun _ => 0) seventeenWords s (by rw [run_eq]; exact hs))
  exact absurd hfits (by decide +kernel)

end OsdevX64.ShellModule
