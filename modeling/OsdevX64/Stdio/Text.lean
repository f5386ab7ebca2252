import OsdevX64.Stdio.Scanning

/-!
# The text of a call

Which characters a call sends does not depend on where it sends them.  For each
function of the output path this module gives the text it sends, and proves that
the function sends it (`outRev_eq`, `ntoaLong_eq`, `convert_eq`, `formatLoop_eq`).

The one place where a function looks at the index is the padding on the right of
`_out_rev`, which compares how far the index has moved with the width; there the
argument is that a 64-bit counter moved by less than `2 ^ 64` shows how far
(`sub64_u64_add`).
-/

namespace OsdevX64.Stdio

open ByteMemory MachineInt

/-! ## Integers -/

/-- The digits in the order in which they are sent. -/
def Digits.text (d : Digits) : List Byte := (List.range d.len).reverse.map d.buf.cell

/-- What `_out_rev` sends. -/
def outRevText (d : Digits) (width : ℕ) (flags : Flags) : List Byte :=
  (if !flags.left && !flags.zeropad then List.replicate (width - d.len) (ch ' ') else []) ++
    d.text ++
    if flags.left then List.replicate (width - d.len) (ch ' ') else []

/-- The digits of a number with prefix and sign, and the width that is left. -/
def ntoaFormatDigits (d : Digits) (negative : Bool) (base prec width : ℕ) (flags : Flags) :
    Digits × ℕ :=
  let (d, width) := padZeros d negative prec width flags
  (addSign (addPrefix d base prec width flags) negative flags, width)

/-- The digits that `_ntoa_long` hands on, and the flags. -/
def ntoaLongDigits (stack : Memory ℕ) (value base : ℕ) (flags : Flags) : Digits × Flags :=
  let d : Digits := { buf := Tracked.fresh stack, len := 0 }
  let flags := if value = 0 then { flags with hash := false } else flags
  (if !flags.precision || value ≠ 0 then
    ntoaDigits base flags.uppercase ntoaBufferSize value d else d, flags)

/-- What `_ntoa_long` sends. -/
def ntoaLongText (stack : Memory ℕ) (value : ℕ) (negative : Bool) (base prec width : ℕ)
    (flags : Flags) : List Byte :=
  let (d, flags) := ntoaLongDigits stack value base flags
  let (d, width) := ntoaFormatDigits d negative base prec width flags
  outRevText d width flags

theorem outDigits_eq (o : Out) (buf : Tracked ℕ Byte) (len : ℕ) :
    (outDigits o buf len).1 = o.puts ((List.range len).reverse.map buf.cell) := by
  induction len generalizing o buf with
  | zero => rfl
  | succ len ih =>
      rw [outDigits, List.range_succ, List.reverse_append]
      exact ih (o.put (buf.cell len)) (buf.read len).2

/-- Padding after `k` characters, when the index has not been looked at since. -/
theorem pad_eq (o : Out) (text : List Byte) (width : ℕ) (h : text.length < 2 ^ 64) :
    (o.puts text).putMany (ch ' ') (width - sub64 (o.puts text).idx o.idx) =
      (o.puts text).puts (List.replicate (width - text.length) (ch ' ')) := by
  rw [puts_idx, sub64_u64_add o.idx_lt h, putMany_eq]

theorem outRev_eq (o : Out) (d : Digits) (width : ℕ) (flags : Flags) (hlen : d.len < 2 ^ 64) :
    (outRev o d width flags).1 = o.puts (outRevText d width flags) := by
  unfold outRev outRevText
  dsimp only
  rw [outDigits_eq, puts_append, puts_append]
  cases hleft : flags.left with
  | false =>
      simp only [Bool.not_false, Bool.true_and, Bool.false_eq_true, if_false, puts_nil]
      split_ifs
      · rw [putMany_eq]
        rfl
      · rfl
  | true =>
      simp only [Bool.not_true, Bool.false_and, Bool.false_eq_true, if_false, if_true, puts_nil]
      have hpad := pad_eq o d.text width (by simpa [Digits.text] using hlen)
      rw [show d.text.length = d.len by simp [Digits.text]] at hpad
      exact hpad

/-! ## The digit buffer holds at most 34 characters -/

theorem pushMany_len (d : Digits) (c : Byte) (count : ℕ) :
    (d.pushMany c count).len = d.len + count := by
  induction count generalizing d with
  | zero => rfl
  | succ count ih =>
      rw [Digits.pushMany, ih]
      show d.len + 1 + count = d.len + (count + 1)
      omega

theorem pushRoom_len_le {d : Digits} (h : d.len ≤ ntoaBufferSize) (c : Byte) :
    (d.pushRoom c).len ≤ ntoaBufferSize := by
  unfold Digits.pushRoom
  split_ifs with hroom
  · exact hroom
  · exact h

theorem ntoaDigits_len_le (base : ℕ) (uppercase : Bool) (room value : ℕ) (d : Digits) :
    (ntoaDigits base uppercase room value d).len ≤ d.len + room := by
  induction room generalizing value d with
  | zero => exact Nat.le_refl _
  | succ room ih =>
      rw [ntoaDigits]
      have hpush : (d.push (digitChar (value % base) uppercase)).len = d.len + 1 := rfl
      split_ifs
      · have hrest := ih (value / base) (d.push (digitChar (value % base) uppercase))
        omega
      · omega

theorem padZeros_len_le {d : Digits} (h : d.len ≤ ntoaBufferSize) (negative : Bool)
    (prec width : ℕ) (flags : Flags) :
    (padZeros d negative prec width flags).1.len ≤ ntoaBufferSize := by
  have hpad {d : Digits} (h : d.len ≤ ntoaBufferSize) (n : ℕ) :
      (d.pushMany (ch '0') (min n ntoaBufferSize - d.len)).len ≤ ntoaBufferSize := by
    rw [pushMany_len]
    omega
  unfold padZeros
  cases flags.left with
  | true => exact h
  | false =>
      cases flags.zeropad with
      | true => exact hpad (hpad h prec) _
      | false => exact hpad h prec

theorem takeBack_len_le (d : Digits) (base prec width : ℕ) (flags : Flags) :
    (takeBack d base prec width flags).len ≤ d.len := by
  unfold takeBack
  dsimp only
  split_ifs
  · exact (Nat.sub_le _ 1).trans (Nat.sub_le _ 1)
  · exact Nat.sub_le _ 1
  · exact Nat.le_refl _

theorem addBaseLetter_len_le {d : Digits} (h : d.len ≤ ntoaBufferSize) (base : ℕ)
    (flags : Flags) : (addBaseLetter d base flags).len ≤ ntoaBufferSize := by
  unfold addBaseLetter
  split_ifs
  · exact pushRoom_len_le h _
  · exact pushRoom_len_le h _
  · exact pushRoom_len_le h _
  · exact h

theorem addPrefix_len_le {d : Digits} (h : d.len ≤ ntoaBufferSize) (base prec width : ℕ)
    (flags : Flags) : (addPrefix d base prec width flags).len ≤ ntoaBufferSize := by
  unfold addPrefix
  split_ifs
  · exact pushRoom_len_le
      (addBaseLetter_len_le ((takeBack_len_le d base prec width flags).trans h) base flags) _
  · exact h

theorem addSign_len_le {d : Digits} (h : d.len ≤ ntoaBufferSize) (negative : Bool)
    (flags : Flags) : (addSign d negative flags).len ≤ ntoaBufferSize := by
  unfold addSign
  split_ifs <;> first
    | exact h
    | exact pushRoom_len_le h _

theorem ntoaFormatDigits_len_le {d : Digits} (h : d.len ≤ ntoaBufferSize) (negative : Bool)
    (base prec width : ℕ) (flags : Flags) :
    (ntoaFormatDigits d negative base prec width flags).1.len ≤ ntoaBufferSize :=
  addSign_len_le (addPrefix_len_le (padZeros_len_le h negative prec width flags) _ _ _ _) _ _

theorem ntoaLongDigits_len_le (stack : Memory ℕ) (value base : ℕ) (flags : Flags) :
    (ntoaLongDigits stack value base flags).1.len ≤ ntoaBufferSize := by
  unfold ntoaLongDigits
  generalize (if value = 0 then { flags with hash := false } else flags) = flags
  dsimp only
  by_cases hdigits : (!flags.precision || decide (value ≠ 0)) = true
  · rw [if_pos hdigits]
    exact (ntoaDigits_len_le _ _ _ _ _).trans_eq (Nat.zero_add _)
  · rw [if_neg hdigits]
    exact Nat.zero_le _

theorem ntoaLong_eq (stack : Memory ℕ) (o : Out) (value : ℕ) (negative : Bool)
    (base prec width : ℕ) (flags : Flags) :
    (ntoaLong stack o value negative base prec width flags).1 =
      o.puts (ntoaLongText stack value negative base prec width flags) := by
  have hlen := ntoaFormatDigits_len_le (ntoaLongDigits_len_le stack value base flags) negative base
    prec width (ntoaLongDigits stack value base flags).2
  exact outRev_eq o _ _ _ (lt_of_le_of_lt hlen (by decide))

/-! ## Conversions -/

/-- What an integer conversion sends, and how many arguments it takes. -/
def convertIntText (env : Env) (spec : Spec) (c : Byte) : List Byte × ℕ :=
  let flags := intFlags spec.flags c
  let ntoa (value : ℕ) (negative : Bool) : List Byte × ℕ :=
    (ntoaLongText env.stack value negative (intBase c) spec.precision spec.width flags, 1)
  if flags.longLong then ([], 0)
  else if c = ch 'i' ∨ c = ch 'd' then
    if flags.long then
      let value := env.long spec.ap
      ntoa (magnitude64 value) (value < 0)
    else
      let value := env.int spec.ap
      let value := if flags.char then i8 value else if flags.short then i16 value else value
      ntoa (magnitude32 env.overflow value) (value < 0)
  else
    if flags.long then ntoa (env.ulong spec.ap) false
    else
      let value := env.uint spec.ap
      ntoa (if flags.char then u8 value else if flags.short then u16 value else value) false

/-- A field of at least the given width. -/
def padded (flags : Flags) (width len : ℕ) (text : List Byte) : List Byte :=
  (if !flags.left then List.replicate (width - len) (ch ' ') else []) ++ text ++
    if flags.left then List.replicate (width - len) (ch ' ') else []

/-- What the string loop sends. -/
def stringText (limited : Bool) (p : List Byte) (precision : ℕ) : List Byte :=
  if limited then p.take precision else p

/-- What the case `s` sends. -/
def convertStringText (env : Env) (spec : Spec) : List Byte :=
  let p := (env.strings (env.args spec.ap)).bytes
  let l := u32 (strnlen p (if spec.precision ≠ 0 then spec.precision else 2 ^ 64 - 1))
  let l := if spec.flags.precision then (if l < spec.precision then l else spec.precision) else l
  padded spec.flags spec.width l (stringText spec.flags.precision p spec.precision)

/-- What a conversion sends, and how many arguments it takes. -/
def convertText (env : Env) (spec : Spec) (c : Byte) : List Byte × ℕ :=
  if isIntConversion c then convertIntText env spec c
  else if c = ch 'c' then (padded spec.flags spec.width 1 [(env.args spec.ap).setWidth 8], 1)
  else if c = ch 's' then (convertStringText env spec, 1)
  else if c = ch 'p' then
    (ntoaLongText env.stack (env.ulong spec.ap) false 16 spec.precision 16
      { spec.flags with zeropad := true, uppercase := true }, 1)
  else ([c], 0)

theorem convertInt_eq (env : Env) (o : Out) (spec : Spec) (c : Byte) :
    convertInt env o spec c =
      (o.puts (convertIntText env spec c).1, spec.ap + (convertIntText env spec c).2) := by
  unfold convertInt convertIntText
  dsimp only
  split_ifs <;> first
    | rw [ntoaLong_eq]
    | rfl

/-- A field that is sent with its padding. -/
theorem padded_eq (o : Out) (flags : Flags) (width len : ℕ) (text : List Byte) (send : Out → Out)
    (hsend : ∀ o, send o = o.puts text) :
    (if flags.left then
        (send (if !flags.left then o.putMany (ch ' ') (width - len) else o)).putMany (ch ' ')
          (width - len)
      else send (if !flags.left then o.putMany (ch ' ') (width - len) else o)) =
      o.puts (padded flags width len text) := by
  unfold padded
  rw [puts_append, puts_append]
  cases flags.left with
  | false =>
      simp only [Bool.not_false, if_true, Bool.false_eq_true, if_false, puts_nil, hsend, putMany_eq]
  | true =>
      simp only [Bool.not_true, Bool.false_eq_true, if_true, if_false, puts_nil, hsend, putMany_eq]

theorem outString_eq (o : Out) (limited : Bool) (p : List Byte) (precision : ℕ) :
    outString o limited p precision = o.puts (stringText limited p precision) := by
  induction p generalizing o precision with
  | nil => cases limited <;> simp [outString, stringText]
  | cons c p ih =>
      cases limited with
      | false =>
          rw [outString]
          exact ih (o.put c) precision
      | true =>
          cases precision with
          | zero => rfl
          | succ precision =>
              rw [outString]
              exact ih (o.put c) precision

/-- **A conversion sends its text**, wherever it is sent. -/
theorem convert_eq (env : Env) (o : Out) (spec : Spec) (c : Byte) :
    convert env o spec c =
      (o.puts (convertText env spec c).1, spec.ap + (convertText env spec c).2) := by
  unfold convert convertText
  split_ifs
  · exact convertInt_eq env o spec c
  · exact Prod.ext (padded_eq o spec.flags spec.width 1 [(env.args spec.ap).setWidth 8]
      (fun o => o.put ((env.args spec.ap).setWidth 8)) fun _ => rfl) rfl
  · exact Prod.ext (padded_eq o spec.flags spec.width _ _
      (fun o => outString o spec.flags.precision _ spec.precision)
      fun o => outString_eq o _ _ _) rfl
  · exact Prod.ext (ntoaLong_eq env.stack o _ false 16 spec.precision 16 _) rfl
  · rfl

/-! ## The whole format -/

/-- The text of a format. -/
def formatText (env : Env) : ℕ → List Byte → ℕ → Except Fault (List Byte)
  | 0, _, _ => .error .outOfFuel
  | fuel + 1, format, ap =>
      if peek format = 0 then .ok []
      else if peek format ≠ ch '%' then do
        let rest ← advance format
        let text ← formatText env fuel rest ap
        return peek format :: text
      else do
        let format ← advance format
        let (spec, format) ← scanSpec env format ap
        let (piece, taken) := convertText env spec (peek format)
        let format ← advance format
        let text ← formatText env fuel format (spec.ap + taken)
        return piece ++ text

theorem ok_bind {α β : Type} (a : α) (f : α → Except Fault β) : (Except.ok a >>= f) = f a := rfl

/-- **The loop sends the text of the format**, wherever it is sent. -/
theorem formatLoop_eq (env : Env) (fuel : ℕ) (o : Out) (format : List Byte) (ap : ℕ) :
    formatLoop env fuel o format ap = (formatText env fuel format ap).map o.puts := by
  induction fuel generalizing o format ap with
  | zero => rfl
  | succ fuel ih =>
      rw [formatLoop, formatText]
      split_ifs with hnul hpercent
      · rfl
      · cases advance format with
        | error fault => rfl
        | ok rest =>
            show formatLoop env fuel (o.put (peek format)) rest ap =
              Except.map _ (formatText env fuel rest ap >>= _)
            rw [ih]
            cases formatText env fuel rest ap with
            | error fault => rfl
            | ok text => rfl
      · cases advance format with
        | error fault => rfl
        | ok rest =>
            show (scanSpec env rest ap >>= _) = Except.map _ (scanSpec env rest ap >>= _)
            cases scanSpec env rest ap with
            | error fault => rfl
            | ok scanned =>
                obtain ⟨spec, rest⟩ := scanned
                simp only [ok_bind]
                rw [convert_eq]
                cases advance rest with
                | error fault => rfl
                | ok rest' =>
                    simp only [ok_bind]
                    rw [ih]
                    cases formatText env fuel rest' (spec.ap + (convertText env spec _).2) with
                    | error fault => rfl
                    | ok text => exact congrArg Except.ok (puts_append o _ _).symm

end OsdevX64.Stdio
