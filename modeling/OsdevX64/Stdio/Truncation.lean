import OsdevX64.Stdio.Text

/-!
# Truncation

`vsnprintf` sends the text of the format whatever the size of the buffer, so the
calls with and without a limit differ only in what `_out_buffer` stores:
`puts_cell` says which cells a text reaches, and the NUL goes behind the last of
them or over it (`finish_truncated`).
-/

namespace OsdevX64.Stdio

open ByteMemory MachineInt

/-- The byte sequence that a call emits into an unlimited buffer. -/
def emitted (env : Env) (format : CString) : List Byte :=
  match sprintf env (some (Tracked.fresh fun _ => 0)) format with
  | .ok r => r.out.sent
  | .error _ => []

/-- What a buffer of `count` bytes holds after the text `text`. -/
structure Truncated (text : List Byte) (count : ℕ) (buffer : Tracked ℕ Byte) : Prop where
  stored : ∀ i (h : i < text.length), i < count - 1 → buffer.cell i = text[i]
  nul : 1 ≤ count → buffer.cell (min text.length (count - 1)) = 0
  in_range : ∀ i ∈ buffer.writes, i < count

/-! ## What is stored -/

section Stores

variable {o : Out} {buffer : Tracked ℕ Byte}

/-- The buffer after one character. -/
theorem put_buffer (hbuffer : o.buffer = some buffer) (c : Byte) :
    (o.put c).buffer = some (outBuffer c buffer o.idx o.maxlen) := by
  unfold Out.put Out.out
  rw [hbuffer]
  rfl

@[simp] theorem put_maxlen (o : Out) (c : Byte) : (o.put c).maxlen = o.maxlen := rfl

@[simp] theorem puts_maxlen (o : Out) (text : List Byte) : (o.puts text).maxlen = o.maxlen := by
  induction text generalizing o with
  | nil => rfl
  | cons c text ih => exact ih (o.put c)

theorem outBuffer_writes {c : Byte} {idx maxlen : ℕ} (h : ∀ i ∈ buffer.writes, i < maxlen) :
    ∀ i ∈ (outBuffer c buffer idx maxlen).writes, i < maxlen := by
  unfold outBuffer
  split_ifs with hidx
  · intro i hi
    rcases List.mem_cons.mp hi with rfl | hi
    · exact hidx
    · exact h i hi
  · exact h

theorem outBuffer_cell (c : Byte) (idx maxlen k : ℕ) :
    (outBuffer c buffer idx maxlen).cell k =
      if k = idx ∧ idx < maxlen then c else buffer.cell k := by
  unfold outBuffer
  by_cases hidx : idx < maxlen
  · rw [if_pos hidx, Tracked.cell_write, Function.update_apply]
    simp only [hidx, and_true]
  · rw [if_neg hidx, if_neg fun h => hidx h.2]

/-- **A text reaches the cells below the limit**, from the index on. -/
theorem puts_cell (hbuffer : o.buffer = some buffer) (text : List Byte)
    (hlen : o.idx + text.length < 2 ^ 64) (hwrites : ∀ i ∈ buffer.writes, i < o.maxlen) :
    ∃ buffer', (o.puts text).buffer = some buffer' ∧
      (∀ k, buffer'.cell k =
        if o.idx ≤ k ∧ k < o.idx + text.length ∧ k < o.maxlen then text.getD (k - o.idx) 0
        else buffer.cell k) ∧
      ∀ i ∈ buffer'.writes, i < o.maxlen := by
  induction text generalizing o buffer with
  | nil =>
      refine ⟨buffer, hbuffer, fun k => ?_, hwrites⟩
      rw [if_neg (by rw [List.length_nil]; omega)]
  | cons c text ih =>
      rw [List.length_cons] at hlen
      have hidx : (o.put c).idx = o.idx + 1 := Nat.mod_eq_of_lt (by omega)
      obtain ⟨buffer', hbuffer', hcell, hwrites'⟩ := ih (put_buffer hbuffer c)
        (by rw [hidx]; omega) (outBuffer_writes hwrites)
      refine ⟨buffer', hbuffer', fun k => ?_, hwrites'⟩
      rw [hcell, hidx, put_maxlen, outBuffer_cell, List.length_cons]
      rcases lt_trichotomy k o.idx with hk | rfl | hk
      · rw [if_neg (fun h => absurd h.1 (by omega)), if_neg (fun h => absurd h.1 (by omega)),
          if_neg (fun h => absurd h.1 (by omega))]
      · rw [if_neg (fun h => absurd h.1 (by omega)), Nat.sub_self]
        by_cases hmax : o.idx < o.maxlen
        · rw [if_pos ⟨rfl, hmax⟩, if_pos ⟨Nat.le_refl _, by omega, hmax⟩]
          rfl
        · rw [if_neg (fun h => hmax h.2), if_neg (fun h => hmax h.2.2)]
      · rw [if_neg (c := k = o.idx ∧ o.idx < o.maxlen) (fun h => absurd h.1 (by omega))]
        by_cases hin : k < o.idx + (text.length + 1) ∧ k < o.maxlen
        · rw [if_pos ⟨by omega, by omega, hin.2⟩, if_pos ⟨by omega, hin⟩,
            show k - o.idx = k - (o.idx + 1) + 1 by omega]
          rfl
        · rw [if_neg (fun h => hin ⟨by omega, h.2.2⟩), if_neg (fun h => hin h.2)]

end Stores

/-! ## The whole call -/

/-- A call that ends returns the length of its text. -/
theorem vsnprintfCore_eq {env : Env} {format : CString} {text : List Byte}
    (htext : formatText env (format.bytes.length + 1) format.bytes 0 = .ok text)
    (buffer : Option (Tracked ℕ Byte)) (maxlen : ℕ) :
    vsnprintfCore env buffer maxlen format = .ok ((Out.start buffer maxlen).puts text).finish := by
  unfold vsnprintfCore
  rw [formatLoop_eq, htext]
  rfl

theorem finish_ret {buffer : Option (Tracked ℕ Byte)} {maxlen : ℕ} {text : List Byte}
    (hlen : text.length < 2 ^ 31) :
    ((Out.start buffer maxlen).puts text).finish.ret = text.length := by
  have hidx : ((Out.start buffer maxlen).puts text).idx = text.length := by
    rw [puts_idx]
    show u64 (0 + text.length) = text.length
    rw [Nat.zero_add]
    exact Nat.mod_eq_of_lt (by omega)
  unfold Out.finish i32
  dsimp only
  rw [hidx]
  exact Int.bmod_eq_of_le (by omega) (by omega)

/-- **What the buffer holds at the end.** -/
theorem finish_truncated (memory : Memory ℕ) {count : ℕ} {text : List Byte}
    (hlen : text.length < 2 ^ 31) :
    ∃ buffer, ((Out.start (some (Tracked.fresh memory)) count).puts text).finish.out.buffer =
      some buffer ∧ Truncated text count buffer := by
  have hidx : ((Out.start (some (Tracked.fresh memory)) count).puts text).idx = text.length := by
    rw [puts_idx]
    show u64 (0 + text.length) = text.length
    rw [Nat.zero_add]
    exact Nat.mod_eq_of_lt (by omega)
  obtain ⟨buffer, hbuffer, hcell, hwrites⟩ := puts_cell
    (o := Out.start (some (Tracked.fresh memory)) count) rfl text
    (by show 0 + text.length < 2 ^ 64; omega) (fun i hi => absurd hi List.not_mem_nil)
  have hfinish : ((Out.start (some (Tracked.fresh memory)) count).puts text).finish.out.buffer =
      some (outBuffer 0 buffer (if text.length < count then text.length else sub64 count 1)
        count) := by
    unfold Out.finish Out.out
    dsimp only
    rw [hidx, hbuffer, puts_maxlen]
    rfl
  refine ⟨_, hfinish, ?_, ?_, outBuffer_writes hwrites⟩
  · intro i hi hcount
    have hnul : ¬ (i = (if text.length < count then text.length else sub64 count 1) ∧
        (if text.length < count then text.length else sub64 count 1) < count) := by
      rw [sub64_of_le (by omega)]
      split_ifs <;> omega
    rw [outBuffer_cell, if_neg hnul, hcell]
    show (if 0 ≤ i ∧ i < 0 + text.length ∧ i < count then _ else _) = _
    rw [if_pos (by omega)]
    exact List.getD_eq_getElem text 0 hi
  · intro hcount
    rw [outBuffer_cell, if_pos]
    rw [sub64_of_le hcount]
    split_ifs <;> omega

/-- **The truncation law of `vsnprintf`.** -/
theorem vsnprintf_truncates (env : Env) (format : CString) (hformat : ¬ EndsInside format)
    (hlen : (emitted env format).length < 2 ^ 31) (count : ℕ) (_hcount : count < 2 ^ 64) :
    (∃ r, sprintf env (some (Tracked.fresh fun _ => 0)) format = .ok r ∧
      r.out.sent = emitted env format) ∧
    (∃ r, vsnprintf env none count format = .ok r ∧ r.ret = (emitted env format).length) ∧
    ∀ memory : Memory ℕ, ∃ r buffer,
      vsnprintf env (some (Tracked.fresh memory)) count format = .ok r ∧
      r.ret = (emitted env format).length ∧ r.out.buffer = some buffer ∧
      Truncated (emitted env format) count buffer := by
  obtain ⟨o, ho⟩ := (formatLoop_ends env (Nat.lt_add_one _) format.nul_free (Out.start none 0)
    0).1 hformat
  rw [formatLoop_eq] at ho
  cases htext : formatText env (format.bytes.length + 1) format.bytes 0 with
  | error fault =>
      rw [htext] at ho
      cases ho
  | ok text =>
      have hcall := vsnprintfCore_eq htext
      have hsent (buffer : Option (Tracked ℕ Byte)) (maxlen : ℕ) :
          ((Out.start buffer maxlen).puts text).finish.out.sent = text := puts_sent _ text
      have hemitted : emitted env format = text := by
        unfold emitted sprintf
        rw [hcall]
        exact hsent _ _
      rw [hemitted] at hlen ⊢
      refine ⟨⟨_, hcall _ _, hsent _ _⟩, ⟨_, hcall _ _, finish_ret hlen⟩, fun memory => ?_⟩
      obtain ⟨buffer, hbuffer, htruncated⟩ := finish_truncated memory hlen
      exact ⟨_, buffer, hcall _ _, finish_ret hlen, hbuffer, htruncated⟩

/-- The format `%5s|%-3d`. -/
def stringAndInt : CString :=
  ⟨[ch '%', ch '5', ch 's', ch '|', ch '%', ch '-', ch '3', ch 'd'], by decide⟩

/-- The arguments `"ab"` and 7. -/
def abAndSeven : Env where
  args ap := if ap = 0 then 4096 else 7
  strings _ := ⟨[ch 'a', ch 'b'], by decide⟩
  stack _ := 0
  overflow := 0

theorem vsnprintf_truncates_six :
    (∃ r, sprintf abAndSeven (some (Tracked.fresh fun _ => 0)) stringAndInt = .ok r ∧
      r.out.sent = emitted abAndSeven stringAndInt) ∧
    (∃ r, vsnprintf abAndSeven none 6 stringAndInt = .ok r ∧
      r.ret = (emitted abAndSeven stringAndInt).length) ∧
    ∀ memory : Memory ℕ, ∃ r buffer,
      vsnprintf abAndSeven (some (Tracked.fresh memory)) 6 stringAndInt = .ok r ∧
      r.ret = (emitted abAndSeven stringAndInt).length ∧ r.out.buffer = some buffer ∧
      Truncated (emitted abAndSeven stringAndInt) 6 buffer :=
  vsnprintf_truncates abAndSeven stringAndInt (by decide) (by decide +kernel) 6 (by decide)

end OsdevX64.Stdio
