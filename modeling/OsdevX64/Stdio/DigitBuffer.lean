import OsdevX64.Lib.BufferLog
import OsdevX64.Stdio.Integer

/-!
# The digit buffer is safe

`_ntoa_long`, `_ntoa_format` and `_out_rev` once more, now with a log of all that happens
to `buf` and `len`, and with `len` as the 64-bit number that it is: a decrement of 0 would
be logged as `2 ^ 64 - 1`.  The loops test what the source tests.

Each part keeps `len` in 0 to 32 with the bytes below it written in this conversion
(`Sound`), and does what the part of `Stdio.Integer` does.  So for every value, base,
precision, width and flag word **the log is safe** (`digit_buffer_safe`), and the text that
is sent is that of `ntoaLong` (`traced_ntoaLong`).
-/

namespace OsdevX64.Stdio

open ByteMemory MachineInt BufferLog

/-- The buffer with a log of what happened to it. -/
structure Traced where
  digits : Digits
  log : List Event

namespace Traced

/-! ## The source, with a log -/

/-- `len = n`. -/
def setLen (t : Traced) (n : ℕ) : Traced :=
  { digits := { t.digits with len := n }, log := .length n :: t.log }

/-- `buf[len++] = c`. -/
def push (t : Traced) (c : Byte) : Traced :=
  let len := t.digits.len
  let stored : Traced :=
    { digits := { t.digits with buf := t.digits.buf.write len c }, log := .write len :: t.log }
  stored.setLen (u64 (len + 1))

/-- `len--`. -/
def drop (t : Traced) : Traced := t.setLen (sub64 t.digits.len 1)

/-- `buf[len]`. -/
def fetch (t : Traced) : Byte × Traced :=
  let (c, buf) := t.digits.buf.read t.digits.len
  (c, { digits := { t.digits with buf := buf }, log := .read t.digits.len :: t.log })

/-- `buf[len++] = c` where there is room. -/
def pushRoom (t : Traced) (c : Byte) : Traced :=
  if t.digits.len < ntoaBufferSize then t.push c else t

/-- `while((len < limit) && (len < PRINTF_NTOA_BUFFER_SIZE))`, storing zeros. -/
def fill (t : Traced) (limit : ℕ) : Traced :=
  if t.digits.len < limit ∧ t.digits.len < ntoaBufferSize then (t.push (ch '0')).fill limit else t
termination_by ntoaBufferSize - t.digits.len
decreasing_by
  rename_i h
  have hlen : (t.push (ch '0')).digits.len = t.digits.len + 1 :=
    Nat.mod_eq_of_lt (by unfold ntoaBufferSize at h; omega)
  omega

/-- The loop that takes the digits off. -/
def digitLoop (t : Traced) (base : ℕ) (uppercase : Bool) (value : ℕ) : Traced :=
  let t' := t.push (digitChar (value % base) uppercase)
  if value / base ≠ 0 ∧ t'.digits.len < ntoaBufferSize then
    t'.digitLoop base uppercase (value / base)
  else t'
-- a counter outside the buffer could come back to it once, by a wrap
termination_by
  if t.digits.len < ntoaBufferSize then ntoaBufferSize - t.digits.len else ntoaBufferSize + 1
decreasing_by
  rename_i h
  have hroom : (t.push (digitChar (value % base) uppercase)).digits.len < ntoaBufferSize := h.2
  have hlen : (t.push (digitChar (value % base) uppercase)).digits.len =
      u64 (t.digits.len + 1) := rfl
  rw [if_pos hroom]
  unfold u64 at hlen
  unfold ntoaBufferSize at hroom ⊢
  split_ifs <;> omega

/-- The padding with zeros and the width that is left. -/
def padZeros (t : Traced) (negative : Bool) (prec width : ℕ) (flags : Flags) : Traced × ℕ :=
  if flags.left then (t, width)
  else
    let width :=
      if width ≠ 0 && flags.zeropad && (negative || (flags.plus || flags.space)) then width - 1
      else width
    let t := t.fill prec
    let t := if flags.zeropad then t.fill width else t
    (t, width)

/-- Under `FLAGS_HASH`: make room for the prefix. -/
def takeBack (t : Traced) (base prec width : ℕ) (flags : Flags) : Traced :=
  if !flags.precision && t.digits.len ≠ 0 && (t.digits.len = prec || t.digits.len = width) then
    let t := t.drop
    if t.digits.len ≠ 0 && base = 16 then t.drop else t
  else t

/-- Under `FLAGS_HASH`: the letter of the base. -/
def addBaseLetter (t : Traced) (base : ℕ) (flags : Flags) : Traced :=
  if base = 16 && !flags.uppercase then t.pushRoom (ch 'x')
  else if base = 16 && flags.uppercase then t.pushRoom (ch 'X')
  else if base = 2 then t.pushRoom (ch 'b')
  else t

/-- The prefix. -/
def addPrefix (t : Traced) (base prec width : ℕ) (flags : Flags) : Traced :=
  if flags.hash then
    let t := t.takeBack base prec width flags
    let t := t.addBaseLetter base flags
    t.pushRoom (ch '0')
  else t

/-- The sign. -/
def addSign (t : Traced) (negative : Bool) (flags : Flags) : Traced :=
  if negative then t.pushRoom (ch '-')
  else if flags.plus then t.pushRoom (ch '+')
  else if flags.space then t.pushRoom (ch ' ')
  else t

/-- `while(len) out(buf[--len], buffer, idx++, maxlen)`. -/
def sendAll (t : Traced) (o : Out) : Out × Traced :=
  if t.digits.len ≠ 0 then
    let fetched := t.drop.fetch
    fetched.2.sendAll (o.put fetched.1)
  else (o, t)
termination_by t.digits.len
decreasing_by
  rename_i h
  show sub64 t.digits.len 1 < t.digits.len
  rw [sub64_of_le (Nat.pos_of_ne_zero h)]
  omega

/-- `_out_rev`. -/
def outRev (t : Traced) (o : Out) (width : ℕ) (flags : Flags) : Out × Traced :=
  let startIdx := o.idx
  let o := if !flags.left && !flags.zeropad then o.putMany (ch ' ') (width - t.digits.len) else o
  let (o, t) := t.sendAll o
  let o := if flags.left then o.putMany (ch ' ') (width - sub64 o.idx startIdx) else o
  (o, t)

/-- `_ntoa_format`. -/
def ntoaFormat (t : Traced) (o : Out) (negative : Bool) (base prec width : ℕ) (flags : Flags) :
    Out × Traced :=
  let (t, width) := t.padZeros negative prec width flags
  let t := t.addPrefix base prec width flags
  let t := t.addSign negative flags
  t.outRev o width flags

/-- `_ntoa_long`; `stack` is what the array `buf` holds on entry. -/
def ntoaLong (stack : Memory ℕ) (o : Out) (value : ℕ) (negative : Bool) (base prec width : ℕ)
    (flags : Flags) : Out × Traced :=
  let t : Traced := { digits := { buf := Tracked.fresh stack, len := 0 }, log := [.length 0] }
  let flags := if value = 0 then { flags with hash := false } else flags
  let t := if !flags.precision || value ≠ 0 then t.digitLoop base flags.uppercase value else t
  t.ntoaFormat o negative base prec width flags

/-! ## What each part keeps -/

/-- The counter is in the buffer, what is below it was written, and the log is safe. -/
structure Sound (t : Traced) : Prop where
  len_le : t.digits.len ≤ ntoaBufferSize
  filled : ∀ i < t.digits.len, .write i ∈ t.log
  safe : Safe ntoaBufferSize t.log

/-- A part of the conversion: the log stays safe, and the buffer becomes `d`. -/
def Becomes (t : Traced) (d : Digits) : Prop := t.Sound ∧ t.digits = d

/-- The end of the conversion: the log is safe, and the text and the bytes in the buffer are
those of `s`. -/
structure Sends (r : Out × Traced) (s : Out × Digits) : Prop where
  safe : Safe ntoaBufferSize r.2.log
  out : r.1 = s.1
  buf : r.2.digits.buf = s.2.buf

variable {t : Traced}

theorem Sound.self (h : t.Sound) : t.Becomes t.digits := ⟨h, rfl⟩

theorem Sound.push (h : t.Sound) (hlen : t.digits.len < ntoaBufferSize) (c : Byte) :
    (t.push c).Becomes (t.digits.push c) := by
  have hnext : u64 (t.digits.len + 1) = t.digits.len + 1 :=
    Nat.mod_eq_of_lt (by unfold ntoaBufferSize at hlen; omega)
  unfold Traced.push setLen
  dsimp only
  rw [hnext]
  refine ⟨⟨hlen, fun i hi => ?_, (h.safe.cons_write hlen).cons_length hlen⟩, rfl⟩
  refine List.mem_cons_of_mem _ ?_
  rcases Nat.lt_succ_iff_lt_or_eq.mp hi with hi | rfl
  · exact List.mem_cons_of_mem _ (h.filled i hi)
  · exact List.mem_cons_self

theorem Sound.drop (h : t.Sound) (hlen : t.digits.len ≠ 0) :
    t.drop.Becomes { t.digits with len := t.digits.len - 1 } := by
  have hprevious : sub64 t.digits.len 1 = t.digits.len - 1 :=
    sub64_of_le (Nat.pos_of_ne_zero hlen)
  have hle : t.digits.len - 1 ≤ ntoaBufferSize := (Nat.sub_le _ 1).trans h.len_le
  unfold Traced.drop setLen
  rw [hprevious]
  refine ⟨⟨hle, fun i hi => ?_, h.safe.cons_length hle⟩, rfl⟩
  exact List.mem_cons_of_mem _ (h.filled i (Nat.lt_of_lt_of_le hi (Nat.sub_le _ 1)))

theorem Sound.pushRoom (h : t.Sound) (c : Byte) :
    (t.pushRoom c).Becomes (t.digits.pushRoom c) := by
  unfold Traced.pushRoom Digits.pushRoom
  split_ifs with hlen
  · exact h.push hlen c
  · exact h.self

/-- The zeros that fit below the limit. -/
theorem Sound.fill (h : t.Sound) (limit : ℕ) :
    (t.fill limit).Becomes
      (t.digits.pushMany (ch '0') (min limit ntoaBufferSize - t.digits.len)) := by
  induction t using Traced.fill.induct limit with
  | case1 t hroom ih =>
      obtain ⟨hsound, hdigits⟩ := h.push hroom.2 (ch '0')
      have hcount : min limit ntoaBufferSize - t.digits.len =
          min limit ntoaBufferSize - (t.push (ch '0')).digits.len + 1 := by
        rw [hdigits]
        show _ = min limit ntoaBufferSize - (t.digits.len + 1) + 1
        omega
      rw [Traced.fill, if_pos hroom, hcount, Digits.pushMany, ← hdigits]
      exact ih hsound
  | case2 t hroom =>
      have hnone : min limit ntoaBufferSize - t.digits.len = 0 := by omega
      rw [Traced.fill, if_neg hroom, hnone]
      exact h.self

/-- What is stored takes one place of what is left. -/
theorem room_push (hlen : t.digits.len < ntoaBufferSize) {d : Digits} {c : Byte}
    (hd : d = t.digits.push c) : ntoaBufferSize - t.digits.len = ntoaBufferSize - d.len + 1 := by
  rw [hd]
  show _ = ntoaBufferSize - (t.digits.len + 1) + 1
  omega

/-- The digits that fit. -/
theorem Sound.digitLoop (h : t.Sound) (hlen : t.digits.len < ntoaBufferSize) (base : ℕ)
    (uppercase : Bool) (value : ℕ) :
    (t.digitLoop base uppercase value).Becomes
      (ntoaDigits base uppercase (ntoaBufferSize - t.digits.len) value t.digits) := by
  induction t, value using Traced.digitLoop.induct base uppercase with
  | case1 t value t' hmore ih =>
      obtain ⟨hsound, hdigits⟩ := h.push hlen (digitChar (value % base) uppercase)
      have hroom : ntoaBufferSize - t.digits.len = ntoaBufferSize - t'.digits.len + 1 :=
        room_push hlen hdigits
      rw [Traced.digitLoop, if_pos hmore, hroom, ntoaDigits, if_pos hmore.1, ← hdigits]
      exact ih hsound hmore.2
  | case2 t value t' hlast =>
      obtain ⟨hsound, hdigits⟩ := h.push hlen (digitChar (value % base) uppercase)
      have hroom : ntoaBufferSize - t.digits.len = ntoaBufferSize - t'.digits.len + 1 :=
        room_push hlen hdigits
      rw [Traced.digitLoop, if_neg hlast, hroom, ntoaDigits]
      refine ⟨hsound, hdigits.trans ?_⟩
      by_cases hvalue : value / base = 0
      · rw [if_neg (not_not_intro hvalue)]
      -- the buffer is full
      · have hfull : ntoaBufferSize - t'.digits.len = 0 :=
          Nat.sub_eq_zero_of_le (Nat.not_lt.mp fun hlt => hlast ⟨hvalue, hlt⟩)
        rw [if_pos hvalue, hfull, ntoaDigits]

theorem Sound.padZeros (h : t.Sound) (negative : Bool) (prec width : ℕ) (flags : Flags) :
    (t.padZeros negative prec width flags).1.Becomes
        (Stdio.padZeros t.digits negative prec width flags).1 ∧
      (t.padZeros negative prec width flags).2 =
        (Stdio.padZeros t.digits negative prec width flags).2 := by
  unfold Traced.padZeros Stdio.padZeros
  by_cases hleft : flags.left
  · rw [if_pos hleft, if_pos hleft]
    exact ⟨h.self, rfl⟩
  · rw [if_neg hleft, if_neg hleft]
    refine ⟨?_, rfl⟩
    obtain ⟨hsound, hdigits⟩ := h.fill prec
    dsimp only
    rw [← hdigits]
    by_cases hzeropad : flags.zeropad
    · rw [if_pos hzeropad, if_pos hzeropad]
      exact hsound.fill _
    · rw [if_neg hzeropad, if_neg hzeropad]
      exact hsound.self

theorem Sound.takeBack (h : t.Sound) (base prec width : ℕ) (flags : Flags) :
    (t.takeBack base prec width flags).Becomes
      (Stdio.takeBack t.digits base prec width flags) := by
  unfold Traced.takeBack Stdio.takeBack
  by_cases hback : (!flags.precision && t.digits.len ≠ 0 &&
      (t.digits.len = prec || t.digits.len = width)) = true
  · rw [if_pos hback, if_pos hback]
    have hlen : t.digits.len ≠ 0 := by
      simp only [Bool.and_eq_true, decide_eq_true_eq] at hback
      exact hback.1.2
    obtain ⟨hsound, hdigits⟩ := h.drop hlen
    dsimp only
    rw [hdigits]
    by_cases hagain : (t.digits.len - 1 ≠ 0 && base = 16) = true
    · rw [if_pos hagain, if_pos hagain]
      have hlen' : t.drop.digits.len ≠ 0 := by
        rw [hdigits]
        exact of_decide_eq_true (Bool.and_eq_true_iff.mp hagain).1
      have hsecond := hsound.drop hlen'
      rw [hdigits] at hsecond
      exact hsecond
    · rw [if_neg hagain, if_neg hagain]
      exact ⟨hsound, hdigits⟩
  · rw [if_neg hback, if_neg hback]
    exact h.self

theorem Sound.addBaseLetter (h : t.Sound) (base : ℕ) (flags : Flags) :
    (t.addBaseLetter base flags).Becomes (Stdio.addBaseLetter t.digits base flags) := by
  unfold Traced.addBaseLetter Stdio.addBaseLetter
  split_ifs
  · exact h.pushRoom (ch 'x')
  · exact h.pushRoom (ch 'X')
  · exact h.pushRoom (ch 'b')
  · exact h.self

theorem Sound.addPrefix (h : t.Sound) (base prec width : ℕ) (flags : Flags) :
    (t.addPrefix base prec width flags).Becomes
      (Stdio.addPrefix t.digits base prec width flags) := by
  unfold Traced.addPrefix Stdio.addPrefix
  split_ifs with hhash
  · obtain ⟨hback, hdigits⟩ := h.takeBack base prec width flags
    obtain ⟨hletter, hdigits'⟩ := hback.addBaseLetter base flags
    dsimp only
    rw [← hdigits, ← hdigits']
    exact hletter.pushRoom (ch '0')
  · exact h.self

theorem Sound.addSign (h : t.Sound) (negative : Bool) (flags : Flags) :
    (t.addSign negative flags).Becomes (Stdio.addSign t.digits negative flags) := by
  unfold Traced.addSign Stdio.addSign
  split_ifs
  · exact h.pushRoom (ch '-')
  · exact h.pushRoom (ch '+')
  · exact h.pushRoom (ch ' ')
  · exact h.self

/-! ## Sending -/

/-- A byte that was written can be read. -/
theorem Sound.fetch (h : t.Sound) (hwritten : .write t.digits.len ∈ t.log) :
    t.fetch.2.Becomes { t.digits with buf := (t.digits.buf.read t.digits.len).2 } := by
  refine ⟨⟨h.len_le, fun i hi => ?_, h.safe.cons_read hwritten⟩, rfl⟩
  exact List.mem_cons_of_mem _ (h.filled i hi)

/-- The digits are sent from the last on, and each one was written. -/
theorem Sound.sendAll (h : t.Sound) (o : Out) :
    Sends (t.sendAll o) ((outDigits o t.digits.buf t.digits.len).1,
      { t.digits with buf := (outDigits o t.digits.buf t.digits.len).2 }) := by
  induction hlen : t.digits.len generalizing t o with
  | zero =>
      rw [Traced.sendAll, if_neg (not_not_intro hlen)]
      exact ⟨h.safe, rfl, rfl⟩
  | succ i ih =>
      have hsome : t.digits.len ≠ 0 := hlen ▸ Nat.succ_ne_zero i
      obtain ⟨hdrop, hdigits⟩ := h.drop hsome
      have hdigits : t.drop.digits = { buf := t.digits.buf, len := i } := by
        rw [hdigits, hlen]
        rfl
      have hwritten : .write t.drop.digits.len ∈ t.drop.log := by
        rw [hdigits]
        exact List.mem_cons_of_mem _ (h.filled i (hlen ▸ Nat.lt_succ_self i))
      have hbyte : t.drop.fetch.1 = (t.digits.buf.read i).1 := by
        unfold Traced.fetch
        rw [hdigits]
      obtain ⟨hsound, hrest⟩ := hdrop.fetch hwritten
      rw [hdigits] at hrest
      have hsent := ih hsound (o.put t.drop.fetch.1) (congrArg Digits.len hrest)
      rw [hrest, hbyte] at hsent
      rw [Traced.sendAll, if_pos hsome]
      dsimp only
      rw [hbyte]
      exact ⟨hsent.safe, hsent.out, hsent.buf⟩

theorem Sound.outRev (h : t.Sound) (o : Out) (width : ℕ) (flags : Flags) :
    Sends (t.outRev o width flags) (Stdio.outRev o t.digits width flags) := by
  unfold Traced.outRev Stdio.outRev
  obtain ⟨hsafe, hout, hbuf⟩ := h.sendAll
    (if !flags.left && !flags.zeropad then o.putMany (ch ' ') (width - t.digits.len) else o)
  refine ⟨hsafe, ?_, hbuf⟩
  dsimp only
  rw [hout]

theorem Sound.ntoaFormat (h : t.Sound) (o : Out) (negative : Bool) (base prec width : ℕ)
    (flags : Flags) :
    Sends (t.ntoaFormat o negative base prec width flags)
      (Stdio.ntoaFormat o t.digits negative base prec width flags) := by
  unfold Traced.ntoaFormat Stdio.ntoaFormat
  obtain ⟨⟨hpadded, hdigits⟩, hwidth⟩ := h.padZeros negative prec width flags
  dsimp only
  rw [hwidth, ← hdigits]
  obtain ⟨hprefixed, hdigits⟩ := hpadded.addPrefix base prec
    (Stdio.padZeros t.digits negative prec width flags).2 flags
  rw [← hdigits]
  obtain ⟨hsigned, hdigits⟩ := hprefixed.addSign negative flags
  rw [← hdigits]
  exact hsigned.outRev o _ flags

/-- The buffer on entry. -/
theorem sound_fresh (stack : Memory ℕ) :
    Sound { digits := { buf := Tracked.fresh stack, len := 0 }, log := [.length 0] } where
  len_le := Nat.zero_le _
  filled i hi := absurd hi (Nat.not_lt_zero i)
  safe := safe_nil.cons_length (Nat.zero_le _)

theorem ntoaLong_sends (stack : Memory ℕ) (o : Out) (value : ℕ) (negative : Bool)
    (base prec width : ℕ) (flags : Flags) :
    Sends (ntoaLong stack o value negative base prec width flags)
      (Stdio.ntoaLong stack o value negative base prec width flags) := by
  unfold Traced.ntoaLong Stdio.ntoaLong
  dsimp only
  generalize (if value = 0 then { flags with hash := false } else flags) = flags'
  by_cases hshown : (!flags'.precision || value ≠ 0) = true
  · rw [if_pos hshown, if_pos hshown]
    obtain ⟨hsound, hdigits⟩ :=
      (sound_fresh stack).digitLoop (Nat.succ_pos 31) base flags'.uppercase value
    have hsent := hsound.ntoaFormat o negative base prec width flags'
    rw [hdigits] at hsent
    exact hsent
  · rw [if_neg hshown, if_neg hshown]
    exact (sound_fresh stack).ntoaFormat o negative base prec width flags'

end Traced

/-- **The digit buffer is safe**: whatever the value, the base, the precision, the width
and the flags are, `len` stays in the buffer, nothing is written outside of it, and every
byte that is sent from it was written before. -/
theorem digit_buffer_safe (stack : Memory ℕ) (o : Out) (value : ℕ) (negative : Bool)
    (base prec width : ℕ) (flags : Flags) :
    Safe ntoaBufferSize
      (Traced.ntoaLong stack o value negative base prec width flags).2.log :=
  (Traced.ntoaLong_sends stack o value negative base prec width flags).safe

/-- **The log changes nothing**: the same text is sent, from the same buffer. -/
theorem traced_ntoaLong (stack : Memory ℕ) (o : Out) (value : ℕ) (negative : Bool)
    (base prec width : ℕ) (flags : Flags) :
    (Traced.ntoaLong stack o value negative base prec width flags).1 =
        (ntoaLong stack o value negative base prec width flags).1 ∧
      (Traced.ntoaLong stack o value negative base prec width flags).2.digits.buf =
        (ntoaLong stack o value negative base prec width flags).2.buf :=
  have hsent := Traced.ntoaLong_sends stack o value negative base prec width flags
  ⟨hsent.out, hsent.buf⟩

end OsdevX64.Stdio
