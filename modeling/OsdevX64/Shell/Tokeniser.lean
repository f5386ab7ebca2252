import OsdevX64.Lib.Words
import OsdevX64.Shell.Machine

/-!
# The tokeniser of the shell

What `shell_command` does to a line that ends in a NUL: it writes to `argv` at
the indices from 0 on, once for every word, and to the buffer only inside the
line.  `tokenise_spec` is the result of the loop on a known text; `tokenise_total`
and `tokenise_suffix` hold on any memory.
-/

namespace OsdevX64.ShellModule

open ByteMemory MachineInt Words

/-- The separator of the tokeniser. -/
def isSpace (b : Byte) : Bool := b == 32

/-- The bytes from offset `p` on are the text, without a NUL, then a NUL. -/
structure HoldsText (m : Memory ℕ) (p : ℕ) (text : List Byte) : Prop where
  cells : ∀ k (h : k < text.length), m (p + k) = text[k]
  ne_zero : ∀ b ∈ text, b ≠ 0
  nul : m (p + text.length) = 0

/-- The text after the first byte. -/
theorem HoldsText.tail {m m' : Memory ℕ} {p : ℕ} {b : Byte} {text : List Byte}
    (h : HoldsText m p (b :: text)) (hm : ∀ q, p < q → m' q = m q) :
    HoldsText m' (p + 1) text where
  cells k hk := by
    have hcell := h.cells (k + 1) (Nat.succ_lt_succ hk)
    rw [hm _ (by omega), Nat.add_assoc, Nat.add_comm 1]
    exact hcell
  ne_zero b hb := h.ne_zero b (List.mem_cons_of_mem _ hb)
  nul := by
    have hnul := h.nul
    rw [hm _ (by omega), Nat.add_assoc, Nat.add_comm 1]
    exact hnul

/-! ## One byte -/

/-- A byte is overwritten at most where it stands. -/
theorem tokenStep_cell (t : Tokens) (p : ℕ) (b : Byte) {q : ℕ} (hq : p < q) :
    (tokenStep t p b).buffer.cell q = t.buffer.cell q := by
  unfold tokenStep
  split_ifs
  · exact Function.update_of_ne (Nat.ne_of_gt hq) _ _
  · rfl
  · rfl

/-- No record of a write is lost. -/
theorem tokenStep_suffix (t : Tokens) (p : ℕ) (b : Byte) :
    t.buffer.writes <:+ (tokenStep t p b).buffer.writes ∧
      t.argv.writes <:+ (tokenStep t p b).argv.writes := by
  unfold tokenStep
  split_ifs
  · exact ⟨List.suffix_cons _ _, List.suffix_rfl⟩
  · exact ⟨List.suffix_rfl, List.suffix_cons _ _⟩
  · exact ⟨List.suffix_rfl, List.suffix_rfl⟩

/-- How many entries of `argv` a byte adds. -/
def Tokens.added (t : Tokens) (b : Byte) : ℕ :=
  if isSpace b then 0 else (decide (t.i ≠ 0)).toNat

/-- **What one byte does**: it may start a word, and the next byte may start one
if this is a space. -/
theorem tokenStep_spec {t : Tokens} (p : ℕ) (b : Byte) (hargc : t.argc + 1 < 2 ^ 32) :
    (tokenStep t p b).argc = t.argc + t.added b ∧
      decide ((tokenStep t p b).i ≠ 0) = isSpace b ∧
      (tokenStep t p b).argv.writes =
        (List.range' t.argc (t.added b)).reverse ++ t.argv.writes ∧
      ∀ q ∈ (tokenStep t p b).buffer.writes, q ∈ t.buffer.writes ∨ q = p := by
  have hu32 : u32 (t.argc + 1) = t.argc + 1 := u32_of_lt hargc
  unfold tokenStep Tokens.added isSpace
  by_cases hspace : b = 32
  · rw [if_pos hspace, hspace]
    exact ⟨rfl, rfl, rfl, fun q hq => (List.mem_cons.mp hq).symm⟩
  · rw [if_neg hspace, beq_false_of_ne hspace]
    by_cases hi : t.i = 0
    · simp only [hi, ne_eq, not_true_eq_false, if_false]
      exact ⟨rfl, rfl, rfl, fun q hq => Or.inl hq⟩
    · simp only [ne_eq, hi, not_false_eq_true, if_true, hu32]
      exact ⟨rfl, rfl, rfl, fun q hq => Or.inl hq⟩

/-! ## The loop -/

/-- The state of the loop after it has read the byte at `p`. -/
def Tokens.readAt (t : Tokens) (p : ℕ) : Tokens := { t with buffer := (t.buffer.read p).2 }

theorem tokenise_succ (fuel : ℕ) (t : Tokens) (p : ℕ) :
    tokenise (fuel + 1) t p =
      if t.buffer.cell p = 0 then some (t.readAt p)
      else tokenise fuel (tokenStep (t.readAt p) p (t.buffer.cell p)) (p + 1) := rfl

/-- **The loop ends** where there is a NUL ahead. -/
theorem tokenise_total {fuel p k : ℕ} {t : Tokens} (hk : k < fuel)
    (hnul : t.buffer.cell (p + k) = 0) : ∃ t', tokenise fuel t p = some t' := by
  induction fuel generalizing t p k with
  | zero => omega
  | succ fuel ih =>
      rw [tokenise_succ]
      by_cases hb : t.buffer.cell p = 0
      · exact ⟨_, if_pos hb⟩
      · rw [if_neg hb]
        cases k with
        | zero => exact absurd hnul hb
        | succ k =>
            refine ih (k := k) (by omega) ?_
            rw [tokenStep_cell _ _ _ (by omega), ← hnul, Nat.add_assoc, Nat.add_comm 1]
            rfl

/-- No record of a write is lost. -/
theorem tokenise_suffix {fuel p : ℕ} {t t' : Tokens} (h : tokenise fuel t p = some t') :
    t.buffer.writes <:+ t'.buffer.writes ∧ t.argv.writes <:+ t'.argv.writes := by
  induction fuel generalizing t p with
  | zero => exact absurd h (Option.some_ne_none _).symm
  | succ fuel ih =>
      rw [tokenise_succ] at h
      split_ifs at h
      · cases h
        exact ⟨List.suffix_rfl, List.suffix_rfl⟩
      · obtain ⟨hbuffer, hargv⟩ := ih h
        obtain ⟨hbuffer', hargv'⟩ := tokenStep_suffix (t.readAt p) p (t.buffer.cell p)
        exact ⟨hbuffer'.trans hbuffer, hargv'.trans hargv⟩

/-- **The loop on a text**: one entry of `argv` for every word, in order, and
writes to the buffer inside the text only. -/
theorem tokenise_spec {fuel p : ℕ} {t : Tokens} {text : List Byte}
    (hfuel : text.length < fuel) (htext : HoldsText t.buffer.cell p text)
    (hargc : t.argc + text.length < 2 ^ 32) :
    ∃ t', tokenise fuel t p = some t' ∧
      t'.argv.writes = (List.range' t.argc (wordCount isSpace (t.i ≠ 0) text)).reverse ++
        t.argv.writes ∧
      ∀ q ∈ t'.buffer.writes, q ∈ t.buffer.writes ∨ q < p + text.length := by
  induction text generalizing fuel p t with
  | nil =>
      obtain ⟨fuel, rfl⟩ := Nat.exists_eq_succ_of_ne_zero (Nat.ne_of_gt hfuel)
      exact ⟨_, if_pos htext.nul, rfl, fun q hq => Or.inl hq⟩
  | cons b text ih =>
      obtain ⟨fuel, rfl⟩ := Nat.exists_eq_succ_of_ne_zero (Nat.ne_zero_of_lt hfuel)
      rw [List.length_cons] at hfuel hargc
      have hb : t.buffer.cell p = b := htext.cells 0 (Nat.succ_pos _)
      have hb0 : b ≠ 0 := htext.ne_zero b List.mem_cons_self
      have htext' : HoldsText (tokenStep (t.readAt p) p b).buffer.cell (p + 1) text :=
        htext.tail fun r hr => tokenStep_cell (t.readAt p) p b hr
      obtain ⟨hargc', hi', hargv', hbuffer'⟩ := tokenStep_spec (t := t.readAt p) p b
        (show t.argc + 1 < 2 ^ 32 by omega)
      have hadded : (t.readAt p).added b ≤ 1 := by
        unfold Tokens.added
        split_ifs
        · exact Nat.zero_le 1
        · exact Bool.toNat_le _
      have hfuel' : text.length < fuel := by omega
      -- one byte is done; the rest of the text is tokenised from its state
      obtain ⟨t', ht', hargv, hbuffer⟩ := ih hfuel' htext' (by
        rw [hargc']
        show t.argc + _ + _ < _
        omega)
      rw [tokenise_succ, hb, if_neg hb0]
      refine ⟨t', ht', ?_, fun q hq => ?_⟩
      · rw [hargv, hargv', hargc', hi', wordCount_cons, ← List.append_assoc,
          ← List.reverse_append, List.range'_append_1]
        rfl
      · rcases hbuffer q hq with hold | hnew
        · rcases hbuffer' q hold with hold | rfl
          · exact Or.inl hold
          · exact Or.inr (by rw [List.length_cons]; omega)
        · exact Or.inr (by rw [List.length_cons]; omega)

end OsdevX64.ShellModule
