import OsdevX64.Stdio.Field

/-!
# Integer fields with a precision

With a precision a number has at least that many digits, zero has none of its own,
and a `0` flag does not count (`Layout.precisionField`).  The source pads with zeros
only where there is no `-` flag, in a buffer of 32 bytes that the sign has to fit into
as well, and has no code for `ll`.

So **the field is the one that is asked for exactly if the precision fits into the
buffer together with the sign, or under a `-` flag asks for no zeros**
(`precision_field_iff`).  At 32 digits the sign is gone; a blank for a sign is then
made up for by the padding, where there is any.  For `INT_MIN` as an `int` the digits
are those of an overflow, and no field can be counted on.
-/

namespace OsdevX64.Stdio

open ByteMemory MachineInt

/-! ## Reference -/

/-- Digits as a conversion writes them. -/
def digitsText (c : IntConversion) (ds : List ℕ) : List Byte :=
  ds.map fun digit => digitChar digit (c = .X)

/-- A value as a conversion is to write it with a precision. -/
def Layout.precisionField (l : Layout) (c : IntConversion) (p : ℕ) (v : ℤ) : List Byte :=
  l.blanks.pad (l.sign c.signed v) (digitsText c (Positional.atLeast c.base p v.natAbs))

/-- Under a `-` flag the `n` digits of the number are enough for the precision; without
it precision and sign fit into the buffer, or a blank is lost that the padding has. -/
def KeepsPrecision (l : Layout) (p n : ℕ) (sign : List Byte) : Prop :=
  if l.left then p ≤ n
  else p + sign.length ≤ 32 ∨ p = 32 ∧ sign = [ch ' '] ∧ 33 ≤ l.width

instance (l : Layout) (p n : ℕ) (sign : List Byte) : Decidable (KeepsPrecision l p n sign) :=
  inferInstanceAs (Decidable (if l.left then _ else _))

/-! ## What the source sends -/

/-- The zeros that are stored. -/
def storedZeros (flags : Flags) (prec n : ℕ) : ℕ :=
  if flags.left then 0 else min prec ntoaBufferSize - n

/-- The sign that fits behind `len` digits. -/
def storedSign (flags : Flags) (negative : Bool) (len : ℕ) : List Byte :=
  if len + (flags.sign negative).length ≤ ntoaBufferSize then flags.sign negative else []

theorem stored_addSign_eq (d : Digits) (negative : Bool) (flags : Flags) :
    (addSign d negative flags).stored = d.stored ++ storedSign flags negative d.len := by
  unfold storedSign
  by_cases hroom : d.len + (flags.sign negative).length ≤ ntoaBufferSize
  · rw [if_pos hroom, stored_addSign hroom]
  · -- the buffer is full
    have hfull : ∀ c, d.pushRoom c = d := by
      have hlength := flags.length_sign negative
      intro c
      rw [Digits.pushRoom, if_neg]
      split_ifs at hlength <;> omega
    rw [if_neg hroom, List.append_nil, addSign]
    split_ifs <;> first
      | rw [hfull]
      | rfl

theorem padZeros_precision (d : Digits) (negative : Bool) (prec width : ℕ) {flags : Flags}
    (hzeropad : flags.zeropad = false) :
    padZeros d negative prec width flags =
      (d.pushMany (ch '0') (storedZeros flags prec d.len), width) := by
  unfold padZeros storedZeros
  rw [hzeropad]
  cases flags.left with
  | true => rfl
  | false => simp

/-- A text with blanks on the side that the flags ask for. -/
theorem outRevText_blanks (d : Digits) (width : ℕ) {flags : Flags}
    (hzeropad : flags.zeropad = false) :
    outRevText d width flags = (flags.layout width).blanks.pad [] d.stored.reverse := by
  unfold outRevText Layout.pad Layout.blanks Flags.layout
  dsimp only
  rw [hzeropad, List.length_reverse, d.length_stored, List.length_nil, Nat.zero_add, d.text_eq]
  cases flags.left with
  | true => simp
  | false => simp

/-- With blanks for padding the sign belongs to the text. -/
theorem pad_blanks_sign (l : Layout) (sign number : List Byte) :
    l.blanks.pad sign number = l.blanks.pad [] (sign ++ number) := by
  unfold Layout.pad Layout.blanks
  dsimp only
  rw [List.length_append, List.length_nil, Nat.zero_add]
  cases l.left with
  | true => simp
  | false => simp

/-- **`_ntoa_long` with a precision**: the digits, the zeros that fit and the sign, if it
fits. -/
theorem ntoaLongText_precision (stack : Memory ℕ) {value base : ℕ} (negative : Bool)
    (prec width : ℕ) {flags : Flags} (hbase : 1 < base)
    (hlen : (Nat.digits base value).length ≤ ntoaBufferSize) (hprecision : flags.precision = true)
    (hhash : flags.hash = false) (hzeropad : flags.zeropad = false) :
    let n := (Nat.digits base value).length
    let zeros := storedZeros flags prec n
    ntoaLongText stack value negative base prec width flags =
      (flags.layout width).blanks.pad (storedSign flags negative (n + zeros))
        ((List.replicate zeros 0 ++ (Nat.digits base value).reverse).map
          fun digit => digitChar digit flags.uppercase) := by
  intro n zeros
  unfold ntoaLongText ntoaLongDigits
  dsimp only
  rw [Flags.clear_hash hhash, hprecision, Bool.not_true, Bool.false_or]
  generalize hd : (if decide (value ≠ 0) = true then
    ntoaDigits base flags.uppercase ntoaBufferSize value ⟨Tracked.fresh stack, 0⟩
    else ⟨Tracked.fresh stack, 0⟩) = d
  have hstored : d.stored =
      (Nat.digits base value).map fun digit => digitChar digit flags.uppercase := by
    rw [← hd]
    by_cases hvalue : value = 0
    · rw [if_neg (by simpa using hvalue), hvalue, Nat.digits_zero]
      rfl
    · have hlow : Positional.lowFirst base value = Nat.digits base value := if_neg hvalue
      rw [if_pos (by simpa using hvalue), stored_ntoaDigits hbase _ _ _ _ (by rwa [hlow]), hlow]
      rfl
  have hdlen : d.len = n := by rw [← d.length_stored, hstored, List.length_map]
  have hpadded : (d.pushMany (ch '0') zeros).len = n + zeros := by rw [pushMany_len, hdlen]
  have hfront (d : Digits) : addPrefix d base prec width flags = d := by
    rw [addPrefix, hhash, if_neg Bool.false_ne_true]
  unfold ntoaFormatDigits
  dsimp only
  rw [padZeros_precision d negative prec width hzeropad, hdlen]
  dsimp only
  rw [hfront, outRevText_blanks _ width hzeropad, stored_addSign_eq, hpadded,
    Digits.stored_pushMany, hstored, pad_blanks_sign _ (storedSign flags negative _)]
  have hsign : ∀ len, (storedSign flags negative len).reverse = storedSign flags negative len := by
    intro len
    unfold storedSign
    split_ifs
    · exact flags.reverse_sign negative
    · rfl
  have hzero : List.replicate zeros (ch '0') =
      (List.replicate zeros 0).map fun digit => digitChar digit flags.uppercase := by
    rw [List.map_replicate]
    rfl
  rw [List.reverse_append, hsign, List.reverse_append, List.reverse_replicate, ← List.map_reverse,
    List.map_append, ← hzero]

/-! ## When that is the field -/

/-- The characters of a text that are digits. -/
def digitCount (text : List Byte) : ℕ := text.countP fun c => (digitValue c).isSome

theorem digitCount_append (text text' : List Byte) :
    digitCount (text ++ text') = digitCount text + digitCount text' := List.countP_append

theorem digitCount_blanks (k : ℕ) : digitCount (List.replicate k (ch ' ')) = 0 := by
  rw [digitCount, List.countP_replicate, if_neg (by decide)]

theorem digitCount_digits (uppercase : Bool) {ds : List ℕ} (hds : ∀ d ∈ ds, d < 16) :
    digitCount (ds.map fun digit => digitChar digit uppercase) = ds.length := by
  rw [digitCount, List.countP_map, List.countP_eq_length]
  intro d hd
  rw [Function.comp_apply, digitValue_digitChar (hds d hd)]
  rfl

/-- What a sign may be. -/
def IsSign (sign : List Byte) : Prop :=
  sign = [] ∨ sign = [ch ' '] ∨ sign = [ch '+'] ∨ sign = [ch '-']

theorem IsSign.length_le {sign : List Byte} (h : IsSign sign) : sign.length ≤ 1 := by
  rcases h with rfl | rfl | rfl | rfl
  · exact Nat.zero_le 1
  · exact Nat.le_refl 1
  · exact Nat.le_refl 1
  · exact Nat.le_refl 1

theorem digitCount_sign {sign : List Byte} (h : IsSign sign) : digitCount sign = 0 := by
  rcases h with rfl | rfl | rfl | rfl <;> rfl

/-- A field has the digits of its number and no others. -/
theorem digitCount_pad (l : Layout) {sign : List Byte} (hsign : IsSign sign) (number : List Byte) :
    digitCount (l.blanks.pad sign number) = digitCount number := by
  have hcount := digitCount_sign hsign
  unfold Layout.pad Layout.blanks
  dsimp only
  rw [if_neg Bool.false_ne_true]
  split_ifs
  · rw [digitCount_append, digitCount_append, digitCount_blanks, hcount]
    omega
  · rw [digitCount_append, digitCount_append, digitCount_blanks, hcount]
    omega

/-- A sign can be left out of a field only if it is a blank that the padding has as
well. -/
theorem pad_without_sign_iff {l : Layout} (hleft : l.left = false) {sign : List Byte}
    (hsign : sign.length = 1) (number : List Byte) :
    l.blanks.pad [] number = l.blanks.pad sign number ↔
      sign = [ch ' '] ∧ number.length + 1 ≤ l.width := by
  unfold Layout.pad Layout.blanks
  dsimp only
  rw [hleft, if_neg Bool.false_ne_true, if_neg Bool.false_ne_true, if_neg Bool.false_ne_true,
    if_neg Bool.false_ne_true, hsign, List.length_nil, List.append_nil, Nat.zero_add,
    List.append_left_inj]
  constructor
  · intro heq
    have hlength := congrArg List.length heq
    rw [List.length_append, List.length_replicate, List.length_replicate, hsign] at hlength
    rw [hlength, List.replicate_add] at heq
    exact ⟨(List.append_cancel_left heq).symm, by omega⟩
  · rintro ⟨rfl, hwidth⟩
    rw [show l.width - number.length = l.width - (1 + number.length) + 1 by omega,
      List.replicate_succ']

/-- **What is sent is the field exactly if the precision is kept.** -/
theorem pad_stored_eq_iff (l : Layout) {ds : List ℕ} (hds : ∀ d ∈ ds, d < 16)
    (hlen : ds.length < 32) (p : ℕ) (uppercase : Bool) {sign : List Byte} (hsign : IsSign sign) :
    let zeros := if l.left then 0 else min p 32 - ds.length
    let kept := if ds.length + zeros + sign.length ≤ 32 then sign else []
    let text (k : ℕ) := (List.replicate k 0 ++ ds).map fun digit => digitChar digit uppercase
    l.blanks.pad kept (text zeros) = l.blanks.pad sign (text (p - ds.length)) ↔
      KeepsPrecision l p ds.length sign := by
  intro zeros kept text
  have hsign1 := hsign.length_le
  have hkept : IsSign kept := by
    change IsSign (if _ then sign else [])
    split_ifs
    · exact hsign
    · exact Or.inl rfl
  have htext : ∀ k, digitCount (text k) = k + ds.length := by
    intro k
    have hall : ∀ d ∈ List.replicate k 0 ++ ds, d < 16 := by
      intro d hd
      rcases List.mem_append.mp hd with hd | hd
      · rw [List.eq_of_mem_replicate hd]
        decide
      · exact hds d hd
    rw [digitCount_digits uppercase hall, List.length_append, List.length_replicate]
  -- a field with other zeros has another number of digits
  have hzeros : l.blanks.pad kept (text zeros) = l.blanks.pad sign (text (p - ds.length)) →
      zeros = p - ds.length := by
    intro heq
    have hcount := congrArg digitCount heq
    rw [digitCount_pad l hkept, digitCount_pad l hsign, htext, htext] at hcount
    exact Nat.add_right_cancel hcount
  unfold KeepsPrecision
  cases hleft : l.left with
  | true =>
      have hnone : zeros = 0 := if_pos hleft
      have hwhole : kept = sign := if_pos (by omega)
      rw [if_pos rfl]
      constructor
      · intro heq
        have hsame := hzeros heq
        omega
      · intro hp
        rw [hwhole, hnone, Nat.sub_eq_zero_of_le hp]
  | false =>
      have hsome : zeros = min p 32 - ds.length := if_neg (by rw [hleft]; exact Bool.false_ne_true)
      rw [if_neg Bool.false_ne_true]
      by_cases hp : p ≤ 32
      · have hsame : zeros = p - ds.length := by omega
        by_cases hroom : ds.length + zeros + sign.length ≤ 32
        · have hwhole : kept = sign := if_pos hroom
          rw [hwhole, hsame]
          exact iff_of_true rfl (Or.inl (by omega))
        -- the buffer is full of digits, and the sign is lost
        · have hlost : kept = [] := if_neg hroom
          have hone : sign.length = 1 := by omega
          have hfull : p = 32 := by omega
          have hnumber : (text zeros).length = 32 := by
            rw [List.length_map, List.length_append, List.length_replicate]
            omega
          rw [hlost, ← hsame, pad_without_sign_iff hleft hone, hnumber]
          constructor
          · rintro ⟨hblank, hwidth⟩
            exact Or.inr ⟨hfull, hblank, hwidth⟩
          · rintro (hsum | ⟨-, hblank, hwidth⟩)
            · omega
            · exact ⟨hblank, hwidth⟩
      · refine iff_of_false (fun heq => ?_) (by omega)
        have hsame := hzeros heq
        omega

/-- The field that is sent for the magnitude `n`. -/
def Layout.sentField (l : Layout) (c : IntConversion) (p n : ℕ) (sign : List Byte) : List Byte :=
  let ds := (Nat.digits c.base n).reverse
  let zeros := if l.left then 0 else min p 32 - ds.length
  let kept := if ds.length + zeros + sign.length ≤ 32 then sign else []
  l.blanks.pad kept (digitsText c (List.replicate zeros 0 ++ ds))

theorem digits_reverse_lt (c : IntConversion) (n : ℕ) :
    ∀ d ∈ (Nat.digits c.base n).reverse, d < 16 := by
  obtain ⟨hbase, hbase16⟩ := c.base_bounds
  exact fun d hd => (Nat.digits_lt_base hbase (List.mem_reverse.mp hd)).trans_le hbase16

/-- Texts of one length can be told apart in a field. -/
theorem pad_blanks_inj {l : Layout} {sign number number' : List Byte}
    (hlen : number.length = number'.length)
    (h : l.blanks.pad sign number = l.blanks.pad sign number') : number = number' := by
  unfold Layout.pad Layout.blanks at h
  dsimp only at h
  rw [hlen, if_neg Bool.false_ne_true, if_neg Bool.false_ne_true] at h
  split_ifs at h with hleft
  · exact List.append_cancel_left (List.append_cancel_right h)
  · exact List.append_cancel_left h

/-- **Magnitudes with as many digits are sent as different fields.** -/
theorem Layout.sentField_inj (l : Layout) (c : IntConversion) (p : ℕ) (sign : List Byte)
    {m n : ℕ} (hlen : (Nat.digits c.base m).length = (Nat.digits c.base n).length)
    (h : l.sentField c p m sign = l.sentField c p n sign) : m = n := by
  have hread (m zeros : ℕ) : readDigits c.base
      (digitsText c (List.replicate zeros 0 ++ (Nat.digits c.base m).reverse)) 0 = m := by
    have hall : ∀ d ∈ List.replicate zeros 0 ++ (Nat.digits c.base m).reverse, d < 16 := by
      refine List.forall_mem_append.mpr ⟨fun d hd => ?_, digits_reverse_lt c m⟩
      rw [List.eq_of_mem_replicate hd]
      decide
    have hvalue := readDigits_append c.base (c = .X) hall [] rfl 0
    rw [List.append_nil] at hvalue
    refine hvalue.trans ((Positional.value_zeros c.base zeros _).trans ?_)
    rw [Positional.value_reverse, Nat.ofDigits_digits]
  unfold sentField at h
  simp only [List.length_reverse, hlen] at h
  have hnumber := pad_blanks_inj (by
    simp only [digitsText, List.length_map, List.length_append, List.length_reverse, hlen]) h
  exact (hread m _).symm.trans ((congrArg (readDigits c.base · 0) hnumber).trans (hread n _))

/-- **The field is sent exactly if its precision is kept.** -/
theorem Layout.sentField_eq_iff (l : Layout) {c : IntConversion} (hc : c ≠ .b) (p : ℕ)
    (length : Length) (arg : BitVec 64) :
    let v := c.value length arg
    let sign := l.sign c.signed v
    l.sentField c p v.natAbs sign = l.precisionField c p v ↔
      KeepsPrecision l p (Nat.digits c.base v.natAbs).length sign := by
  intro v sign
  have hlen : (Nat.digits c.base v.natAbs).reverse.length < 32 := by
    rw [List.length_reverse]
    exact (Positional.length_natDigits_le _ _).trans_lt (length_digits_lt hc length _)
  have hiff := pad_stored_eq_iff l (digits_reverse_lt c v.natAbs) hlen p (c = .X)
    (l.sign_cases c.signed v)
  rw [List.length_reverse] at hiff
  refine Iff.trans ?_ hiff
  rw [Layout.sentField, List.length_reverse]
  exact Iff.rfl

/-! ## Directives -/

/-- What an integer directive with a precision sends, for the magnitude that is converted. -/
theorem precision_text (env : Env) (ap : ℕ) {flags : List Flag} (hhash : .hash ∉ flags)
    (width : Width) {precision : Precision} {p : ℕ}
    (hp : precision.limit env (ap + width.stars) = some p) {length : Length}
    (hlength : length ≠ .ll) {c : IntConversion} (hc : c ≠ .b) :
    let l := layout env ap flags width
    let arg := env.args (ap + width.stars + precision.stars)
    ((Directive.mk flags width precision (.int length c)).text env ap).1 =
      l.sentField c p (c.magnitude env.overflow length arg)
        (l.sign c.signed (c.value length arg)) := by
  intro l arg
  obtain ⟨word, hword, htext⟩ := integer_text env ap flags width precision hlength c
  have hdigits : (Nat.digits c.base (c.magnitude env.overflow length arg)).length ≤
      ntoaBufferSize := (Positional.length_natDigits_le _ _).trans
    (length_digits_lt_of_lt hc (c.magnitude_lt env.overflow length arg)).le
  have hprecision : word.precision = true := by rw [hword.precision, hp, Option.isSome_some]
  have hhash' : word.hash = false := by rw [hword.hash, decide_eq_false hhash, Bool.false_and]
  have hzeropad : word.zeropad = false := by
    rw [hword.zeropad, hp, Option.isSome_some, Bool.not_true, Bool.and_false]
  rw [htext, hp, Option.getD_some, ntoaLongText_precision env.stack _ p _ c.base_bounds.1
    hdigits hprecision hhash' hzeropad]
  unfold storedSign storedZeros
  rw [hword.sign_eq, hword.left, hword.uppercase]
  unfold Layout.sentField Layout.pad Layout.blanks Flags.layout
  dsimp only
  rw [hword.left, List.length_reverse]
  rfl

/-- The same call in a build that passes `overflow` on for `0 - INT_MIN`. -/
def Env.negating (env : Env) (overflow : BitVec 64) : Env := { env with overflow := overflow }

/-- **Two builds send two fields for `INT_MIN`.** -/
theorem precision_text_overflows (env : Env) (ap : ℕ) {flags : List Flag} (hhash : .hash ∉ flags)
    (width : Width) {precision : Precision} {p : ℕ}
    (hp : precision.limit env (ap + width.stars) = some p) {length : Length} {c : IntConversion}
    (hover : c.Overflows length (env.args (ap + width.stars + precision.stars)))
    {d : Directive} (hd : d = ⟨flags, width, precision, .int length c⟩) :
    (d.text (env.negating 2147483648) ap).1 ≠ (d.text (env.negating 2147483649) ap).1 := by
  obtain ⟨rfl, hmin⟩ := hover
  have hsigned : c.signed = true := by
    by_contra hunsigned
    exact IntConversion.not_overflows_of_unsigned (Bool.eq_false_of_not_eq_true hunsigned) .none _
      ⟨rfl, hmin⟩
  obtain ⟨hbase, hc⟩ : c.base = 10 ∧ c ≠ .b := by
    cases c <;> first
      | exact ⟨rfl, by decide⟩
      | cases hsigned
  have hmagnitude (overflow : BitVec 64) : c.magnitude overflow .none
      (env.args (ap + width.stars + precision.stars)) = overflow.toNat := if_pos ⟨rfl, hmin⟩
  have htext (overflow : BitVec 64) : (d.text (env.negating overflow) ap).1 =
      (layout env ap flags width).sentField c p overflow.toNat ((layout env ap flags width).sign
        c.signed (c.value .none (env.args (ap + width.stars + precision.stars)))) := by
    rw [hd, precision_text (env.negating overflow) ap hhash width hp (by decide) hc,
      ← hmagnitude overflow]
    rfl
  have hten : (Nat.digits c.base 2147483648).length = (Nat.digits c.base 2147483649).length := by
    rw [hbase]
    norm_num
  rw [htext, htext]
  intro heq
  exact absurd (Layout.sentField_inj _ c p _ hten heq) (by decide)

/-- A directive with `ll` sends nothing. -/
theorem longLong_text (env : Env) (ap : ℕ) (flags : List Flag) (width : Width)
    (precision : Precision) (c : IntConversion) :
    ((Directive.mk flags width precision (.int .ll c)).text env ap).1 = [] := by
  have hlong := (Directive.mk flags width precision (.int .ll c)).spec_longLong env ap
  change (convertText env ((Directive.mk flags width precision (.int .ll c)).spec env ap)
    c.byte).1 = _
  rw [convertText_int, convertIntText_longLong env (hlong.trans (decide_eq_true rfl))]

/-- A field is empty where nothing is asked for. -/
theorem precisionField_eq_nil_iff (l : Layout) (c : IntConversion) (p : ℕ) (v : ℤ) :
    l.precisionField c p v = [] ↔ l.width = 0 ∧ p = 0 ∧ v = 0 ∧ l.sign c.signed v = [] := by
  have hlength := l.blanks.length_pad (l.sign c.signed v)
    (digitsText c (Positional.atLeast c.base p v.natAbs))
  have hwidth : l.blanks.width = l.width := rfl
  have hzero : (Nat.digits c.base v.natAbs).length = 0 ↔ v = 0 :=
    Positional.length_natDigits_eq_zero_iff.trans Int.natAbs_eq_zero
  rw [hwidth, digitsText, List.length_map, Positional.length_atLeast] at hlength
  rw [Layout.precisionField, ← List.length_eq_zero_iff, ← List.length_eq_zero_iff, ← hzero]
  rw [digitsText, hlength]
  omega

/-- **Integer conversions with a precision.**  Between what the items around it send
stands the field of the directive, whatever the build makes of `0 - INT_MIN`, exactly if
that is not what is converted and the precision is kept; with `ll`, only if the field is
empty.  The field has as many digits as the precision asks for or the number takes, and
they stand for it. -/
theorem precision_field_iff (env : Env) (before after : List Item) {flags : List Flag}
    (hhash : .hash ∉ flags) (width : Width) {precision : Precision} {p : ℕ}
    (hp : precision.limit env (taken before + width.stars) = some p) (length : Length)
    {c : IntConversion} (hc : c ≠ .b) :
    let d : Directive := ⟨flags, width, precision, .int length c⟩
    let l := layout env (taken before) flags width
    let arg := env.args (taken before + width.stars + precision.stars)
    let v := c.value length arg
    let n := (Nat.digits c.base v.natAbs).length
    ((∀ overflow, emitted (env.negating overflow) (formatOf (before ++ .directive d :: after)) =
        (itemsText (env.negating overflow) before 0).1 ++ l.precisionField c p v ++
          (itemsText (env.negating overflow) after (taken before + d.taken)).1) ↔
      if length = .ll then l.width = 0 ∧ p = 0 ∧ v = 0 ∧ l.sign c.signed v = []
      else ¬ c.Overflows length arg ∧ KeepsPrecision l p n (l.sign c.signed v)) ∧
    (Positional.atLeast c.base p v.natAbs).length = max p n ∧
      Positional.value c.base (Positional.atLeast c.base p v.natAbs) = v.natAbs := by
  intro d l arg v n
  refine ⟨?_, Positional.length_atLeast _ _ _, Positional.value_atLeast _ _ _⟩
  have hsent (overflow : BitVec 64) := emitted_directive_iff (env.negating overflow) before after d
    (l.precisionField c p v)
  rw [forall_congr' hsent]
  by_cases hlength : length = .ll
  · subst hlength
    rw [if_pos rfl, ← precisionField_eq_nil_iff]
    have hnothing (overflow : BitVec 64) : (d.text (env.negating overflow) (taken before)).1 = [] :=
      longLong_text (env.negating overflow) _ flags width precision c
    simp only [hnothing, forall_const]
    exact eq_comm
  · rw [if_neg hlength]
    by_cases hover : c.Overflows length arg
    · refine iff_of_false (fun hall => ?_) fun h => h.1 hover
      exact precision_text_overflows env (taken before) hhash width hp hover rfl
        ((hall 2147483648).trans (hall 2147483649).symm)
    -- nothing overflows, so every build sends the same
    · have htext (overflow : BitVec 64) : (d.text (env.negating overflow) (taken before)).1 =
          l.sentField c p v.natAbs (l.sign c.signed v) := by
        have hmagnitude : c.magnitude overflow length arg = v.natAbs :=
          IntConversion.magnitude_eq fun h => absurd h hover
        rw [← hmagnitude]
        exact precision_text (env.negating overflow) _ hhash width hp hlength hc
      simp only [htext, forall_const]
      exact (l.sentField_eq_iff hc p length arg).trans (and_iff_right hover).symm

/-- `%+.3d` with the argument 7. -/
theorem precision_field_plus :
    let env : Env := ⟨⟨fun _ => 0, 0⟩, fun _ => 7, fun _ => ⟨[], by simp⟩⟩
    emitted env (formatOf [.directive ⟨[.plus], .absent, .literal ⟨3, []⟩, .int .none .d⟩]) =
      ch '+' :: [0, 0, 7].map digitByte := by
  intro env
  have hhash : Flag.hash ∉ [Flag.plus] := by decide
  have hthree : (Precision.literal ⟨3, []⟩).limit env 0 = some 3 := by decide
  have hfield := precision_field_iff env [] [] hhash .absent hthree .none (c := .d) (by decide)
  exact (hfield.1.mpr (by decide) 0).trans (by decide)

/-- **A `-` flag switches the precision off**: `%-.3d` sends one digit for 7. -/
theorem left_drops_precision :
    let env : Env := ⟨⟨fun _ => 0, 0⟩, fun _ => 7, fun _ => ⟨[], by simp⟩⟩
    let d : Directive := ⟨[.minus], .absent, .literal ⟨3, []⟩, .int .none .d⟩
    emitted env (formatOf [.directive d]) = [digitByte 7] ∧
      (layout env 0 d.flags d.width).precisionField .d 3 7 = [0, 0, 7].map digitByte ∧
      emitted env (formatOf [.directive d]) ≠
        (layout env 0 d.flags d.width).precisionField .d 3 7 := by
  intro env d
  have hsent : emitted env (formatOf [.directive d]) = [digitByte 7] := by decide
  have hfield : (layout env 0 d.flags d.width).precisionField .d 3 7 =
      [0, 0, 7].map digitByte := by decide
  refine ⟨hsent, hfield, ?_⟩
  rw [hsent, hfield]
  decide

end OsdevX64.Stdio
