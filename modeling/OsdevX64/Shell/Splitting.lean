import OsdevX64.Shell.Tokeniser

/-!
# The words of a command

`shell_command` records where words start while it writes NULs over the spaces, so an
early word ends only when the loop has come to the space behind it.  The loop on a
text is described as a whole: the entries of `argv` are the starts of the words, and
the spaces of the text are NULs (`tokenise_starts`).

**Each entry of `argv` then points to its word**: the bytes up to the next NUL are those
up to the next space (`command_words`).
-/

namespace OsdevX64.ShellModule

open ByteMemory MachineInt Words

/-- The buffer with NULs for the spaces among the `n` bytes from `p` on. -/
def split (m : Memory ℕ) (p n : ℕ) : Memory ℕ := fun q =>
  if p ≤ q ∧ q < p + n ∧ isSpace (m q) then 0 else m q

/-! ## One byte -/

section Step

variable (t : Tokens) (p : ℕ) {b : Byte}

theorem tokenStep_space (hb : isSpace b) :
    tokenStep t p b = { t with buffer := t.buffer.write p 0, i := 1 } :=
  if_pos (beq_iff_eq.mp hb)

theorem tokenStep_start (hb : ¬ isSpace b) (hi : t.i ≠ 0) :
    tokenStep t p b = { t with argv := t.argv.write t.argc p, argc := u32 (t.argc + 1), i := 0 } :=
  (if_neg fun h => hb (beq_iff_eq.mpr h)).trans (if_pos hi)

theorem tokenStep_inside (hb : ¬ isSpace b) (hi : t.i = 0) : tokenStep t p b = t :=
  (if_neg fun h => hb (beq_iff_eq.mpr h)).trans (if_neg (not_not_intro hi))

end Step

/-! ## The loop -/

/-- What the loop leaves of a text of `n` bytes from `p` on in which words start at the
given positions. -/
structure Tokenised (t t' : Tokens) (p n : ℕ) (starts : List ℕ) : Prop where
  argc : t'.argc = t.argc + starts.length
  before : ∀ k < t.argc, t'.argv.cell k = t.argv.cell k
  starts : ∀ k (h : k < starts.length), t'.argv.cell (t.argc + k) = starts[k]
  buffer : t'.buffer.cell = split t.buffer.cell p n

/-- A space. -/
theorem Tokenised.space {t t' : Tokens} {p n : ℕ} {starts : List ℕ}
    (hb : isSpace (t.buffer.cell p))
    (h : Tokenised { t with buffer := t.buffer.write p 0, i := 1 } t' (p + 1) n starts) :
    Tokenised t t' p (n + 1) starts where
  argc := h.argc
  before := h.before
  starts := h.starts
  buffer := by
    rw [h.buffer]
    funext q
    show (if p + 1 ≤ q ∧ q < p + 1 + n ∧ isSpace (Function.update t.buffer.cell p 0 q) then 0
      else Function.update t.buffer.cell p 0 q) = split t.buffer.cell p (n + 1) q
    unfold split
    by_cases hq : q = p
    · rw [hq, Function.update_self, if_neg (by omega), if_pos ⟨Nat.le_refl p, by omega, hb⟩]
    · rw [Function.update_of_ne hq]
      congr 1
      apply propext
      constructor
      · rintro ⟨hlow, hhigh, hspace⟩
        exact ⟨by omega, by omega, hspace⟩
      · rintro ⟨hlow, hhigh, hspace⟩
        exact ⟨by omega, by omega, hspace⟩

/-- A byte of a word leaves the buffer. -/
theorem split_succ {m : Memory ℕ} {p : ℕ} (hb : ¬ isSpace (m p)) (n : ℕ) :
    split m (p + 1) n = split m p (n + 1) := by
  funext q
  unfold split
  congr 1
  apply propext
  constructor
  · rintro ⟨hlow, hhigh, hspace⟩
    exact ⟨by omega, by omega, hspace⟩
  · rintro ⟨hlow, hhigh, hspace⟩
    have hne : q ≠ p := fun heq => hb (heq ▸ hspace)
    exact ⟨by omega, by omega, hspace⟩

/-- The first byte of a word. -/
theorem Tokenised.start {t t' : Tokens} {p n : ℕ} {starts : List ℕ}
    (hb : ¬ isSpace (t.buffer.cell p)) (hargc : t.argc + 1 < 2 ^ 32)
    (h : Tokenised { t with argv := t.argv.write t.argc p, argc := u32 (t.argc + 1), i := 0 } t'
      (p + 1) n starts) : Tokenised t t' p (n + 1) (p :: starts) := by
  obtain ⟨hcount, hbefore, hstarts, hbuffer⟩ := h
  dsimp only at hcount hbefore hstarts hbuffer
  rw [u32_of_lt hargc] at hcount hbefore hstarts
  refine ⟨?_, fun k hk => ?_, fun k hk => ?_, ?_⟩
  · rw [hcount, List.length_cons]
    omega
  · rw [hbefore k (Nat.lt_succ_of_lt hk)]
    exact Function.update_of_ne (Nat.ne_of_lt hk) _ _
  · cases k with
    | zero =>
        rw [Nat.add_zero, hbefore t.argc (Nat.lt_succ_self _)]
        exact Function.update_self _ _ _
    | succ k =>
        have hrest := hstarts k (Nat.lt_of_succ_lt_succ hk)
        rw [Nat.add_assoc, Nat.add_comm 1] at hrest
        exact hrest
  · rw [hbuffer]
    exact split_succ hb n

/-- A later byte of a word. -/
theorem Tokenised.inside {t t' : Tokens} {p n : ℕ} {starts : List ℕ}
    (hb : ¬ isSpace (t.buffer.cell p)) (h : Tokenised t t' (p + 1) n starts) :
    Tokenised t t' p (n + 1) starts :=
  ⟨h.argc, h.before, h.starts, h.buffer.trans (split_succ hb n)⟩

/-- **One byte**: the starts and the spaces of the rest are those of the whole, but for
what this byte adds. -/
theorem Tokenised.step {t t' : Tokens} {p : ℕ} {b : Byte} {text : List Byte}
    (hb : t.buffer.cell p = b) (hargc : t.argc + 1 < 2 ^ 32)
    (h : Tokenised (tokenStep t p b) t' (p + 1) text.length
      (wordStarts isSpace (isSpace b) (p + 1) text)) :
    Tokenised t t' p (text.length + 1) (wordStarts isSpace (t.i ≠ 0) p (b :: text)) := by
  rw [wordStarts_cons]
  by_cases hspace : isSpace b
  · rw [tokenStep_space _ _ hspace] at h
    rw [hspace] at h ⊢
    exact Tokenised.space (hb ▸ hspace) h
  · by_cases hi : t.i = 0
    · rw [tokenStep_inside _ _ hspace hi] at h
      rw [decide_eq_false (not_not_intro hi), Bool.and_false]
      exact Tokenised.inside (hb ▸ hspace) h
    · rw [tokenStep_start _ _ hspace hi] at h
      have hword : isSpace b = false := Bool.eq_false_iff.mpr hspace
      rw [decide_eq_true hi, hword]
      rw [hword] at h
      exact Tokenised.start (hb ▸ hspace) hargc h

/-- **The loop records where words start and splits the text at its spaces.** -/
theorem tokenise_starts {fuel p : ℕ} {t : Tokens} {text : List Byte} (hfuel : text.length < fuel)
    (htext : HoldsText t.buffer.cell p text)
    (hargc : t.argc + (wordStarts isSpace (t.i ≠ 0) p text).length + 1 < 2 ^ 32) :
    ∃ t', tokenise fuel t p = some t' ∧
      Tokenised t t' p text.length (wordStarts isSpace (t.i ≠ 0) p text) := by
  induction text generalizing fuel p t with
  | nil =>
      obtain ⟨fuel, rfl⟩ := Nat.exists_eq_succ_of_ne_zero (Nat.ne_zero_of_lt hfuel)
      refine ⟨_, if_pos htext.nul, rfl, fun k _ => rfl, fun k hk => absurd hk (Nat.not_lt_zero k),
        ?_⟩
      funext q
      exact (if_neg (by rw [List.length_nil]; omega)).symm
  | cons b text ih =>
      obtain ⟨fuel, rfl⟩ := Nat.exists_eq_succ_of_ne_zero (Nat.ne_zero_of_lt hfuel)
      have hb : t.buffer.cell p = b := htext.cells 0 (Nat.succ_pos _)
      have hb0 : b ≠ 0 := htext.ne_zero b List.mem_cons_self
      have hrest : HoldsText (tokenStep (t.readAt p) p b).buffer.cell (p + 1) text :=
        htext.tail fun r hr => tokenStep_cell (t.readAt p) p b hr
      have hargc1 : (t.readAt p).argc + 1 < 2 ^ 32 := by
        show t.argc + 1 < _
        omega
      obtain ⟨hcount, hfresh, -, -⟩ := tokenStep_spec (t := t.readAt p) p b hargc1
      have hadded : (wordStarts isSpace (t.i ≠ 0) p (b :: text)).length =
          (t.readAt p).added b + (wordStarts isSpace (isSpace b) (p + 1) text).length := by
        rw [wordStarts_cons, List.length_append]
        congr 1
        unfold Tokens.added
        show _ = if isSpace b then 0 else (decide (t.i ≠ 0)).toNat
        cases isSpace b <;> cases decide (t.i ≠ 0) <;> rfl
      rw [tokenise_succ, hb, if_neg hb0]
      obtain ⟨t', ht', hdone⟩ := ih (Nat.lt_of_succ_lt_succ hfuel) hrest (by
        rw [hfresh, hcount]
        show t.argc + _ + _ + 1 < _
        omega)
      rw [hfresh] at hdone
      obtain ⟨hargc', hbefore, hstarts, hbuffer⟩ := hdone.step (t := t.readAt p) hb hargc1
      exact ⟨t', ht', hargc', hbefore, hstarts, hbuffer⟩

/-! ## The words in the buffer -/

theorem HoldsText.cons {m : Memory ℕ} {p : ℕ} {b : Byte} {text : List Byte} (hb : m p = b)
    (hb0 : b ≠ 0) (h : HoldsText m (p + 1) text) : HoldsText m p (b :: text) where
  cells k hk := by
    cases k with
    | zero => exact hb
    | succ k =>
        have hcell := h.cells k (Nat.lt_of_succ_lt_succ hk)
        rw [Nat.add_assoc, Nat.add_comm 1] at hcell
        exact hcell
  ne_zero := List.forall_mem_cons.mpr ⟨hb0, h.ne_zero⟩
  nul := by
    have hnul := h.nul
    rw [Nat.add_assoc, Nat.add_comm 1] at hnul
    exact hnul

/-- The rest of a text. -/
theorem HoldsText.drop {m : Memory ℕ} {p q : ℕ} {text : List Byte} (h : HoldsText m p text)
    (hq : q ≤ text.length) : HoldsText m (p + q) (text.drop q) where
  cells k hk := by
    rw [List.length_drop] at hk
    rw [List.getElem_drop, Nat.add_assoc]
    exact h.cells (q + k) (by omega)
  ne_zero b hb := h.ne_zero b (List.mem_of_mem_drop hb)
  nul := by
    rw [List.length_drop, Nat.add_assoc, Nat.add_sub_cancel' hq]
    exact h.nul

/-- A text whose spaces are NULs is cut at the first space. -/
theorem HoldsText.cut {m m' : Memory ℕ} {p : ℕ} {text : List Byte} (h : HoldsText m p text)
    (hm : ∀ q, p ≤ q → q ≤ p + text.length → m' q = if isSpace (m q) then 0 else m q) :
    HoldsText m' p (text.takeWhile fun b => !isSpace b) := by
  induction text generalizing p with
  | nil =>
      refine ⟨fun k hk => absurd hk (Nat.not_lt_zero k), fun b hb => absurd hb List.not_mem_nil, ?_⟩
      have hnul : m (p + 0) = 0 := h.nul
      show m' (p + 0) = 0
      rw [hm (p + 0) (Nat.le_refl p) (Nat.le_refl p), hnul]
      rfl
  | cons b text ih =>
      have hb : m p = b := h.cells 0 (Nat.succ_pos _)
      have hfirst := hm p (Nat.le_refl p) (Nat.le_add_right p _)
      rw [hb] at hfirst
      rw [List.takeWhile_cons]
      by_cases hspace : isSpace b
      · rw [if_pos hspace] at hfirst
        rw [hspace]
        exact ⟨fun k hk => absurd hk (Nat.not_lt_zero k), fun b hb => absurd hb List.not_mem_nil,
          hfirst⟩
      · rw [if_neg hspace] at hfirst
        rw [Bool.eq_false_iff.mpr hspace]
        have htail : HoldsText m (p + 1) text := h.tail fun q _ => rfl
        refine HoldsText.cons hfirst (h.ne_zero b List.mem_cons_self) ?_
        refine ih htail fun q hlow hhigh => ?_
        rw [List.length_cons] at hm
        exact hm q (by omega) (by omega)

/-- **In the split buffer there is a word at each position of the text.** -/
theorem HoldsText.wordAt {m : Memory ℕ} {text : List Byte} (h : HoldsText m 0 text) {q : ℕ}
    (hq : q ≤ text.length) :
    HoldsText (split m 0 text.length) q (Words.wordAt isSpace text q) := by
  have hdrop := h.drop hq
  rw [Nat.zero_add] at hdrop
  refine hdrop.cut fun k hlow hhigh => ?_
  rw [List.length_drop] at hhigh
  unfold split
  by_cases hend : k = text.length
  · -- the NUL of the text is no space
    have hnul := h.nul
    rw [Nat.zero_add, ← hend] at hnul
    rw [if_neg (by omega), hnul]
    rfl
  · congr 1
    apply propext
    exact ⟨fun hboth => hboth.2.2, fun hspace => ⟨Nat.zero_le k, by omega, hspace⟩⟩

theorem lt_of_mem_wordStarts {fresh : Bool} {p q : ℕ} {text : List Byte}
    (hq : q ∈ wordStarts isSpace fresh p text) : q < p + text.length := by
  induction text generalizing fresh p with
  | nil => exact absurd hq List.not_mem_nil
  | cons b text ih =>
      rw [wordStarts_cons] at hq
      rw [List.length_cons]
      rcases List.mem_append.mp hq with hq | hq
      · split_ifs at hq
        · rw [List.mem_singleton.mp hq]
          omega
        · exact absurd hq List.not_mem_nil
      · have hlt := ih hq
        omega

/-- **`shell_command` splits a line of at most 16 words into its words**: it counts them,
`argv` has a pointer to each in turn, and only spaces of the line are overwritten. -/
theorem command_words {s : Shell} {text : List Byte} {fuel : ℕ}
    (htext : HoldsText s.buffer.cell 0 text) (hwords : (words isSpace text).length ≤ 16)
    (hfuel : text.length < fuel) :
    ∃ t : Tokens,
      shellCommand fuel s =
        some (printWords (({ s with buffer := t.buffer, argv := t.argv } : Shell).call
          (.printf "argc = %d\n" [.int t.argc])) 0 t.argc) ∧
      t.argc = (words isSpace text).length ∧
      (∀ i (hi : i < (words isSpace text).length),
        HoldsText t.buffer.cell (t.argv.cell i) (words isSpace text)[i]) ∧
      ∀ q, t.buffer.cell q ≠ s.buffer.cell q → q < text.length ∧ isSpace (s.buffer.cell q) := by
  have hmap := words_eq_map_starts isSpace text
  have hlength : (words isSpace text).length = (wordStarts isSpace true 0 text).length := by
    rw [hmap, List.length_map]
  obtain ⟨t, ht, hargc, -, hstarts, hbuffer⟩ := tokenise_starts
    (t := ⟨s.buffer, s.argv, 0, 1⟩) hfuel htext (by
      show 0 + (wordStarts isSpace true 0 text).length + 1 < 2 ^ 32
      omega)
  refine ⟨t, ?_, ?_, fun i hi => ?_, fun q hq => ?_⟩
  · unfold shellCommand
    rw [ht]
    rfl
  · rw [hargc, hlength]
    exact Nat.zero_add _
  · have hi' : i < (wordStarts isSpace true 0 text).length := hlength ▸ hi
    have hstart := hstarts i hi'
    rw [Nat.zero_add] at hstart
    have hle := lt_of_mem_wordStarts (List.getElem_mem hi')
    have hword := htext.wordAt (q := (wordStarts isSpace true 0 text)[i]) (by omega)
    have heq : (words isSpace text)[i] =
        Words.wordAt isSpace text (wordStarts isSpace true 0 text)[i] := by
      simp only [hmap, List.getElem_map]
    rw [heq, hbuffer, hstart]
    exact hword
  · rw [hbuffer] at hq
    unfold split at hq
    by_cases hspace : 0 ≤ q ∧ q < 0 + text.length ∧ isSpace (s.buffer.cell q)
    · exact ⟨by omega, hspace.2.2⟩
    · exact absurd (if_neg hspace) hq

/-- The line `" ab  c"`. -/
def twoWords : List Byte := [32, 97, 98, 32, 32, 99]

theorem command_words_two :
    ∃ t : Tokens, t.argc = 2 ∧ HoldsText t.buffer.cell (t.argv.cell 0) [97, 98] ∧
      HoldsText t.buffer.cell (t.argv.cell 1) [99] := by
  have htext : HoldsText (fun k => twoWords.getD k 0) 0 twoWords := by
    refine ⟨fun k hk => ?_, by decide, by decide⟩
    rw [Nat.zero_add]
    exact List.getD_eq_getElem _ _ hk
  obtain ⟨t, -, hargc, hword, -⟩ := command_words
    (s := ⟨0, 0, Tracked.fresh fun k => twoWords.getD k 0, Tracked.fresh fun _ => 0, []⟩)
    htext (by decide) (by decide : twoWords.length < 7)
  exact ⟨t, hargc, hword 0 (by decide), hword 1 (by decide)⟩

end OsdevX64.ShellModule
