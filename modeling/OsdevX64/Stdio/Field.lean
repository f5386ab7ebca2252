import OsdevX64.Lib.Positional
import OsdevX64.Stdio.Arguments

/-!
# Integer fields

What an integer conversion is to send, said without the digit buffer: a sign, the
digits of the magnitude and padding up to the width (`Layout.field`).  The source
collects the digits in reverse, puts the sign behind them and pads in two places,
with a width from which the sign has been taken off in one of them.

`Digits.stored` is what the buffer holds, so that every function of the digit
buffer appends to a list.  **An integer conversion sends its field, and the field
reads back as the value that was converted** (`integer_field`).
-/

namespace OsdevX64.Stdio

open ByteMemory MachineInt

/-! ## Reference -/

/-- The number as characters. -/
def numberText (base : ℕ) (uppercase : Bool) (n : ℕ) : List Byte :=
  (Positional.digits base n).map fun digit => digitChar digit uppercase

/-- A field: how wide it is, where the padding goes, and which sign a number that
is not negative has. -/
structure Layout where
  width : ℕ
  left : Bool
  zero : Bool
  plus : Bool
  space : Bool

/-- The sign.  Only the conversions of signed types show one. -/
def Layout.sign (l : Layout) (signed : Bool) (v : ℤ) : List Byte :=
  if v < 0 then [ch '-']
  else if signed && l.plus then [ch '+']
  else if signed && l.space then [ch ' ']
  else []

/-- Sign and digits with their padding. -/
def Layout.pad (l : Layout) (sign number : List Byte) : List Byte :=
  let fill := l.width - (sign.length + number.length)
  if l.left then sign ++ number ++ List.replicate fill (ch ' ')
  else if l.zero then sign ++ List.replicate fill (ch '0') ++ number
  else List.replicate fill (ch ' ') ++ sign ++ number

/-- The base of a conversion. -/
def IntConversion.base : IntConversion → ℕ
  | .x | .X => 16
  | .o => 8
  | .b => 2
  | .d | .i | .u => 10

/-- Whether a conversion is one of a signed type. -/
def IntConversion.signed : IntConversion → Bool
  | .d | .i => true
  | _ => false

/-- The bits of the type that a length modifier names. -/
def Length.bits : Length → ℕ
  | .none => 32
  | .hh => 8
  | .h => 16
  | .l | .ll | .j | .z | .t => 64

/-- The value of an argument in the type of the conversion. -/
def IntConversion.value (c : IntConversion) (length : Length) (arg : BitVec 64) : ℤ :=
  let narrowed := arg.setWidth length.bits
  if c.signed then narrowed.toInt else narrowed.toNat

/-- The argument is `INT_MIN` as an `int`: its magnitude is the result of an overflow. -/
def IntConversion.Overflows (c : IntConversion) (length : Length) (arg : BitVec 64) : Prop :=
  length = .none ∧ c.value .none arg = -2 ^ 31

instance (c : IntConversion) (length : Length) (arg : BitVec 64) :
    Decidable (c.Overflows length arg) := inferInstanceAs (Decidable (_ ∧ _))

/-- The magnitude of an argument, as it is converted. -/
def IntConversion.magnitude (overflow : BitVec 64) (c : IntConversion) (length : Length)
    (arg : BitVec 64) : ℕ :=
  if c.Overflows length arg then overflow.toNat else (c.value length arg).natAbs

/-- A value as a conversion writes it. -/
def Layout.field (l : Layout) (c : IntConversion) (v : ℤ) : List Byte :=
  l.pad (l.sign c.signed v) (numberText c.base (c = .X) v.natAbs)

/-- The layout that flags and a width ask for. -/
def layout (env : Env) (ap : ℕ) (flags : List Flag) (width : Width) : Layout where
  width := width.amount env ap
  left := decide (.minus ∈ flags) || width.negative env ap
  zero := .zero ∈ flags
  plus := .plus ∈ flags
  space := .space ∈ flags

/-- The layout with blanks for padding, also under a `0` flag. -/
def Layout.blanks (l : Layout) : Layout := { l with zero := false }

/-- The number that a precision stands for, if there is one.  A dot alone is a
zero, and so is a negative argument of a star. -/
def Precision.limit (env : Env) (ap : ℕ) : Precision → Option ℕ
  | .absent => none
  | .dot => some 0
  | .literal n => some (u32 n.value)
  | .star => some (env.int ap).toNat

/-! ## Reading a field -/

/-- The digit that a character stands for. -/
def digitValue (c : Byte) : Option ℕ :=
  let n := c.toNat
  if (ch '0').toNat ≤ n ∧ n ≤ (ch '9').toNat then some (n - (ch '0').toNat)
  else if (ch 'a').toNat ≤ n ∧ n ≤ (ch 'f').toNat then some (n - (ch 'a').toNat + 10)
  else if (ch 'A').toNat ≤ n ∧ n ≤ (ch 'F').toNat then some (n - (ch 'A').toNat + 10)
  else none

/-- Read digits up to the first character that is none, with those before worth
`v`. -/
def readDigits (base : ℕ) : List Byte → ℕ → ℕ
  | [], v => v
  | c :: text, v =>
      match digitValue c with
      | some digit => readDigits base text (base * v + digit)
      | none => v

/-- Read a number: blanks, a sign, digits. -/
def readField (base : ℕ) (text : List Byte) : ℤ :=
  let text := text.dropWhile (· = ch ' ')
  if peek text = ch '-' then -(readDigits base text.tail 0 : ℤ)
  else if peek text = ch '+' then readDigits base text.tail 0
  else readDigits base text 0

/-! ## The digit buffer as a list -/

/-- What the buffer holds, in the order in which it was stored. -/
def Digits.stored (d : Digits) : List Byte := (List.range d.len).map d.buf.cell

theorem Digits.text_eq (d : Digits) : d.text = d.stored.reverse := List.map_reverse

theorem Digits.length_stored (d : Digits) : d.stored.length = d.len := by
  rw [stored, List.length_map, List.length_range]

theorem Digits.stored_push (d : Digits) (c : Byte) : (d.push c).stored = d.stored ++ [c] := by
  unfold stored push
  rw [List.range_succ, List.map_append]
  congr 1
  · apply List.map_congr_left
    intro i hi
    exact Function.update_of_ne (List.mem_range.mp hi).ne c d.buf.cell
  · show [Function.update d.buf.cell d.len c d.len] = [c]
    rw [Function.update_self]

theorem Digits.stored_pushMany (d : Digits) (c : Byte) (count : ℕ) :
    (d.pushMany c count).stored = d.stored ++ List.replicate count c := by
  induction count generalizing d with
  | zero => exact (List.append_nil _).symm
  | succ count ih =>
      rw [pushMany, ih, stored_push, List.append_assoc]
      rfl

theorem Digits.stored_pushRoom {d : Digits} (h : d.len < ntoaBufferSize) (c : Byte) :
    (d.pushRoom c).stored = d.stored ++ [c] := by
  rw [pushRoom, if_pos h, stored_push]

/-- The loop stores the digits from the least significant on, as long as there is
room. -/
theorem stored_ntoaDigits_take {base : ℕ} (hbase : 1 < base) (uppercase : Bool)
    (room value : ℕ) (d : Digits) :
    (ntoaDigits base uppercase room value d).stored =
      d.stored ++ ((Positional.lowFirst base value).take room).map
        fun digit => digitChar digit uppercase := by
  induction room generalizing value d with
  | zero => exact (List.append_nil _).symm
  | succ room ih =>
      rw [Positional.lowFirst_eq hbase, List.take_succ_cons, ntoaDigits]
      by_cases hq : value / base = 0
      · rw [if_neg (not_not_intro hq), if_pos hq, Digits.stored_push, List.take_nil]
        rfl
      · rw [if_neg hq, if_pos hq, ih, Digits.stored_push, List.append_assoc]
        rfl

/-- With enough room it stores all of them. -/
theorem stored_ntoaDigits {base : ℕ} (hbase : 1 < base) (uppercase : Bool) (room value : ℕ)
    (d : Digits) (hroom : (Positional.lowFirst base value).length ≤ room) :
    (ntoaDigits base uppercase room value d).stored =
      d.stored ++ (Positional.lowFirst base value).map fun digit => digitChar digit uppercase := by
  rw [stored_ntoaDigits_take hbase, List.take_of_length_le hroom]

/-! ## Sign and padding -/

/-- The sign that the flags ask for. -/
def Flags.sign (flags : Flags) (negative : Bool) : List Byte :=
  if negative then [ch '-']
  else if flags.plus then [ch '+']
  else if flags.space then [ch ' ']
  else []

theorem Flags.length_sign (flags : Flags) (negative : Bool) :
    (flags.sign negative).length = if negative || (flags.plus || flags.space) then 1 else 0 := by
  unfold sign
  cases negative <;> cases flags.plus <;> cases flags.space <;> rfl

theorem Flags.reverse_sign (flags : Flags) (negative : Bool) :
    (flags.sign negative).reverse = flags.sign negative := by
  unfold sign
  split_ifs <;> rfl

theorem stored_addSign {d : Digits} {negative : Bool} {flags : Flags}
    (h : d.len + (flags.sign negative).length ≤ ntoaBufferSize) :
    (addSign d negative flags).stored = d.stored ++ flags.sign negative := by
  unfold Flags.sign at h ⊢
  unfold addSign
  split_ifs at h ⊢ <;> first
    | exact Digits.stored_pushRoom h _
    | exact (List.append_nil _).symm

/-- What is sent of a buffer to which the sign is still to be added. -/
theorem text_addSign {d : Digits} {negative : Bool} {flags : Flags}
    (h : d.len + (flags.sign negative).length ≤ ntoaBufferSize) :
    (addSign d negative flags).text = flags.sign negative ++ d.stored.reverse := by
  rw [Digits.text_eq, stored_addSign h, List.reverse_append, flags.reverse_sign]

/-- The layout that a flag word stands for. -/
def Flags.layout (flags : Flags) (width : ℕ) : Layout where
  width := width
  left := flags.left
  zero := flags.zeropad
  plus := flags.plus
  space := flags.space

/-- Under `FLAGS_ZEROPAD`, zeros are stored up to the width that the sign leaves. -/
theorem padZeros_zeropad (d : Digits) (negative : Bool) (width : ℕ) {flags : Flags}
    (hleft : flags.left = false) (hzeropad : flags.zeropad = true) :
    (padZeros d negative 0 width flags).1 =
      d.pushMany (ch '0')
        (min (width - (flags.sign negative).length) ntoaBufferSize - d.len) := by
  have hwidth : (if (decide (width ≠ 0) && flags.zeropad &&
      (negative || (flags.plus || flags.space))) = true then width - 1 else width) =
        width - (flags.sign negative).length := by
    rw [flags.length_sign, hzeropad, Bool.and_true]
    cases negative || (flags.plus || flags.space) with
    | false => rw [Bool.and_false, if_neg Bool.false_ne_true, if_neg Bool.false_ne_true]; rfl
    | true =>
        rw [Bool.and_true, if_pos rfl]
        split_ifs with hne
        · rfl
        · have hzero : width = 0 := by simpa using hne
          rw [hzero]
  unfold padZeros
  rw [hleft, if_neg Bool.false_ne_true, hwidth, hzeropad, Nat.zero_min, Nat.zero_sub]
  rfl

/-- **Digits in the buffer are sent as a field**: with no prefix and no precision,
when they leave room for the sign. -/
theorem ntoaFormat_text {d : Digits} (hlen : d.len < ntoaBufferSize) (negative : Bool)
    (base width : ℕ) {flags : Flags} (hhash : flags.hash = false)
    (hzero : flags.zeropad = true → flags.left = false → width ≤ ntoaBufferSize) :
    outRevText (ntoaFormatDigits d negative base 0 width flags).1
        (ntoaFormatDigits d negative base 0 width flags).2 flags =
      (flags.layout width).pad (flags.sign negative) d.stored.reverse := by
  have hplain (d : Digits) (width : ℕ) : addPrefix d base 0 width flags = d := by
    rw [addPrefix, hhash, if_neg Bool.false_ne_true]
  have hsign : (flags.sign negative).length ≤ 1 := by
    rw [flags.length_sign]
    split_ifs <;> decide
  have hroom : d.len + (flags.sign negative).length ≤ ntoaBufferSize := by omega
  have hlength : (addSign d negative flags).len =
      (flags.sign negative).length + d.stored.length := by
    rw [← Digits.length_stored, stored_addSign hroom, List.length_append, Nat.add_comm]
  unfold ntoaFormatDigits
  dsimp only
  rw [hplain]
  unfold outRevText Layout.pad Flags.layout
  dsimp only
  rw [List.length_reverse]
  cases hleft : flags.left with
  | true =>
      have hpad : padZeros d negative 0 width flags = (d, width) := by
        rw [padZeros, if_pos hleft]
      rw [hpad, text_addSign hroom, hlength]
      rfl
  | false =>
      cases hzeropad : flags.zeropad with
      | false =>
          have hpad : padZeros d negative 0 width flags = (d, width) := by
            unfold padZeros
            rw [hleft, hzeropad]
            simp [Digits.pushMany]
          rw [hpad, text_addSign hroom, hlength]
          simp [List.append_assoc]
      | true =>
          -- the zeros fill the place that sign and digits leave of the width
          have hwidth32 := hzero hzeropad hleft
          have hfill : min (width - (flags.sign negative).length) ntoaBufferSize - d.len =
              width - ((flags.sign negative).length + d.stored.length) := by
            rw [d.length_stored]
            omega
          have hroom' : (d.pushMany (ch '0')
              (width - ((flags.sign negative).length + d.stored.length))).len +
                (flags.sign negative).length ≤ ntoaBufferSize := by
            rw [pushMany_len, d.length_stored]
            omega
          rw [padZeros_zeropad d negative width hleft hzeropad, hfill, text_addSign hroom',
            Digits.stored_pushMany, List.reverse_append, List.reverse_replicate]
          simp [List.append_assoc]

/-- A zero clears a flag that is clear. -/
theorem Flags.clear_hash {flags : Flags} (hhash : flags.hash = false) (value : ℕ) :
    (if value = 0 then { flags with hash := false } else flags) = flags := by
  split_ifs
  · rw [← hhash]
  · rfl

/-- **`_ntoa_long` sends a field**, with no prefix and no precision, of a number
with fewer digits than the buffer has room for. -/
theorem ntoaLongText_eq (stack : Memory ℕ) {value base : ℕ} (negative : Bool) (width : ℕ)
    {flags : Flags} (hbase : 1 < base)
    (hlen : (Positional.digits base value).length < ntoaBufferSize)
    (hprecision : flags.precision = false) (hhash : flags.hash = false)
    (hzero : flags.zeropad = true → flags.left = false → width ≤ ntoaBufferSize) :
    ntoaLongText stack value negative base 0 width flags =
      (flags.layout width).pad (flags.sign negative) (numberText base flags.uppercase value) := by
  unfold ntoaLongText ntoaLongDigits
  dsimp only
  rw [Flags.clear_hash hhash, hprecision, Bool.not_false, Bool.true_or, if_pos rfl]
  generalize hd : ntoaDigits base flags.uppercase ntoaBufferSize value ⟨Tracked.fresh stack, 0⟩ = d
  have hlow : (Positional.lowFirst base value).length < ntoaBufferSize := by
    rw [← List.length_reverse]
    exact hlen
  have hstored : d.stored =
      (Positional.lowFirst base value).map fun digit => digitChar digit flags.uppercase := by
    rw [← hd, stored_ntoaDigits hbase _ _ _ _ hlow.le]
    rfl
  have hdlen : d.len < ntoaBufferSize := by
    rw [← d.length_stored, hstored, List.length_map]
    exact hlow
  rw [ntoaFormat_text hdlen negative base width hhash hzero, hstored, ← List.map_reverse]
  rfl

/-! ## Values -/

theorem env_int_bounds (env : Env) (ap : ℕ) : -2 ^ 31 ≤ env.int ap ∧ env.int ap < 2 ^ 31 := by
  unfold Env.int
  have hle := ((env.args ap).setWidth 32).le_toInt
  have hlt := ((env.args ap).setWidth 32).toInt_lt
  exact ⟨hle, hlt⟩

theorem Width.amount_lt (env : Env) (ap : ℕ) (width : Width) : width.amount env ap < 2 ^ 32 := by
  cases width with
  | absent => exact Nat.two_pow_pos 32
  | literal n h => exact Nat.mod_lt _ (Nat.two_pow_pos 32)
  | star =>
      have hbounds := env_int_bounds env ap
      change (env.int ap).natAbs < 2 ^ 32
      omega

theorem Precision.limit_lt {env : Env} {ap p : ℕ} {precision : Precision}
    (h : precision.limit env ap = some p) : p < 2 ^ 32 := by
  cases precision with
  | absent => cases h
  | dot =>
      cases h
      exact Nat.two_pow_pos 32
  | literal n =>
      cases h
      exact Nat.mod_lt _ (Nat.two_pow_pos 32)
  | star =>
      have hbounds := env_int_bounds env ap
      obtain rfl := Option.some.inj h
      omega

theorem u32OfInt_natAbs {z : ℤ} (h : z.natAbs < 2 ^ 32) : u32OfInt z.natAbs = z.natAbs := by
  unfold u32OfInt
  rw [Int.emod_eq_of_lt (Int.natCast_nonneg _) (by exact_mod_cast h), Int.toNat_natCast]

theorem ite_natAbs (z : ℤ) : (if z > 0 then z else 0 - z) = (z.natAbs : ℤ) := by
  split_ifs <;> omega

theorem magnitude32_eq (overflow : BitVec 64) {z : ℤ} (h : z.natAbs < 2 ^ 32)
    (hmin : z ≠ -2 ^ 31) : magnitude32 overflow z = z.natAbs := by
  rw [magnitude32, if_neg hmin, ite_natAbs, u32OfInt_natAbs h]

theorem magnitude64_eq {z : ℤ} (h : z.natAbs < 2 ^ 64) : magnitude64 z = z.natAbs := by
  rw [magnitude64, ite_natAbs, u64OfInt, Int.emod_eq_of_lt (Int.natCast_nonneg _)
    (by exact_mod_cast h), Int.toNat_natCast]

/-- Narrowing an `int` is narrowing the argument. -/
theorem bmod_toInt_setWidth (x : BitVec 64) {k : ℕ} (hk : k ≤ 32) :
    (x.setWidth 32).toInt.bmod (2 ^ k) = (x.setWidth k).toInt := by
  rw [BitVec.toInt_setWidth, BitVec.toInt_setWidth,
    Int.bmod_bmod_of_dvd (Nat.pow_dvd_pow 2 hk)]

/-- Narrowing an `unsigned int` is narrowing the argument. -/
theorem mod_toNat_setWidth (x : BitVec 64) {k : ℕ} (hk : k ≤ 32) :
    (x.setWidth 32).toNat % 2 ^ k = (x.setWidth k).toNat := by
  rw [BitVec.toNat_setWidth, BitVec.toNat_setWidth, Nat.mod_mod_of_dvd _ (Nat.pow_dvd_pow 2 hk)]

theorem natAbs_toInt_lt {k : ℕ} (x : BitVec k) : x.toInt.natAbs < 2 ^ k := by
  have hlt := x.isLt
  rw [BitVec.toInt_eq_toNat_cond]
  split_ifs with hhalf
  · rw [Int.natAbs_natCast]
    exact hlt
  · generalize 2 ^ k = m at *
    omega

theorem IntConversion.value_lt (c : IntConversion) (length : Length) (arg : BitVec 64) :
    (c.value length arg).natAbs < 2 ^ length.bits := by
  unfold value
  cases c.signed with
  | true => exact natAbs_toInt_lt _
  | false => exact (arg.setWidth length.bits).isLt

theorem IntConversion.base_bounds (c : IntConversion) : 1 < c.base ∧ c.base ≤ 16 := by
  cases c <;> decide

/-- What is narrower than an `int` has no magnitude that overflows. -/
theorem IntConversion.value_ne_min (c : IntConversion) {length : Length} (arg : BitVec 64)
    (h : length.bits ≤ 16) : c.value length arg ≠ -2 ^ 31 := by
  have hlt := (c.value_lt length arg).trans_le (Nat.pow_le_pow_right Nat.two_pos h)
  omega

/-- Where nothing overflows, or what overflows wraps around, the magnitude is that of the
value. -/
theorem IntConversion.magnitude_eq {overflow : BitVec 64} {c : IntConversion} {length : Length}
    {arg : BitVec 64} (h : c.Overflows length arg → overflow = BitVec.ofNat 64 (2 ^ 31)) :
    c.magnitude overflow length arg = (c.value length arg).natAbs := by
  unfold magnitude
  split_ifs with hover
  · rw [h hover, hover.1, hover.2]
    decide
  · rfl

/-- An unsigned argument has no magnitude that overflows. -/
theorem IntConversion.not_overflows_of_unsigned {c : IntConversion} (h : c.signed = false)
    (length : Length) (arg : BitVec 64) : ¬ c.Overflows length arg := by
  rintro ⟨-, hmin⟩
  unfold value at hmin
  rw [h, if_neg Bool.false_ne_true] at hmin
  omega

/-- Every magnitude is a 64-bit number. -/
theorem IntConversion.magnitude_lt (overflow : BitVec 64) (c : IntConversion) (length : Length)
    (arg : BitVec 64) : c.magnitude overflow length arg < 2 ^ 64 := by
  have hbits : length.bits ≤ 64 := by cases length <;> decide
  unfold magnitude
  split_ifs
  · exact overflow.isLt
  · exact (c.value_lt length arg).trans_le (Nat.pow_le_pow_right Nat.two_pos hbits)

theorem Length.bits_le (length : Length) : length.bits ≤ 64 := by cases length <;> decide

/-! ## Conversions -/

/-- The flags with which an integer is converted. -/
theorem intFlags_word {flags : Flags} (hupper : flags.uppercase = false) (c : IntConversion) :
    intFlags flags c.byte =
      { flags with
        zeropad := flags.zeropad && !flags.precision
        plus := c.signed && flags.plus
        space := c.signed && flags.space
        hash := flags.hash && c.base ≠ 10
        uppercase := decide (c = .X) } := by
  obtain ⟨zeropad, left, plus, space, hash, uppercase, char, short, long, longLong, precision⟩ :=
    flags
  cases hupper
  cases precision <;> cases zeropad <;> cases hash <;> cases c <;> rfl

theorem intBase_byte (c : IntConversion) : intBase c.byte = c.base := by
  cases c <;> rfl

theorem intFlags_char (flags : Flags) (c : Byte) : (intFlags flags c).char = flags.char := by
  simp only [intFlags, apply_ite Flags.char, ite_self]

theorem intFlags_short (flags : Flags) (c : Byte) : (intFlags flags c).short = flags.short := by
  simp only [intFlags, apply_ite Flags.short, ite_self]

theorem intFlags_long (flags : Flags) (c : Byte) : (intFlags flags c).long = flags.long := by
  simp only [intFlags, apply_ite Flags.long, ite_self]

/-- The narrowing of an `int` under the flags of a length modifier. -/
theorem narrow_int (x : BitVec 64) {length : Length} (h : (length.apply {}).long = false) :
    (if (length.apply {}).char then i8 (x.setWidth 32).toInt
      else if (length.apply {}).short then i16 (x.setWidth 32).toInt
      else (x.setWidth 32).toInt) = (x.setWidth length.bits).toInt := by
  cases length with
  | none => rfl
  | hh => exact bmod_toInt_setWidth x (k := 8) (by decide)
  | h => exact bmod_toInt_setWidth x (k := 16) (by decide)
  | l | ll | j | z | t => cases h

/-- The narrowing of an `unsigned int` under the flags of a length modifier. -/
theorem narrow_uint (x : BitVec 64) {length : Length} (h : (length.apply {}).long = false) :
    (if (length.apply {}).char then u8 (x.setWidth 32).toNat
      else if (length.apply {}).short then u16 (x.setWidth 32).toNat
      else (x.setWidth 32).toNat) = (x.setWidth length.bits).toNat := by
  cases length with
  | none => rfl
  | hh => exact mod_toNat_setWidth x (k := 8) (by decide)
  | h => exact mod_toNat_setWidth x (k := 16) (by decide)
  | l | ll | j | z | t => cases h

/-- A `long` is not narrowed. -/
theorem setWidth_long (x : BitVec 64) {length : Length} (h : (length.apply {}).long = true) :
    (x.setWidth length.bits).toInt = x.toInt ∧ (x.setWidth length.bits).toNat = x.toNat := by
  cases length with
  | none | hh | h => cases h
  | l | ll | j | z | t => exact ⟨congrArg _ (x.setWidth_eq), congrArg _ (x.setWidth_eq)⟩

/-- An `int` and what is narrower has at most 32 bits. -/
theorem Length.bits_of_not_long {length : Length} (h : (length.apply {}).long = false) :
    length.bits ≤ 32 := by
  cases length with
  | none | hh | h => decide
  | l | ll | j | z | t => cases h

/-- **The magnitude of what is not a `long`.** -/
theorem magnitude32_value (overflow : BitVec 64) (c : IntConversion) {length : Length}
    (arg : BitVec 64) (h : (length.apply {}).long = false) :
    magnitude32 overflow (c.value length arg) = c.magnitude overflow length arg := by
  have hvalue := (c.value_lt length arg).trans_le
    (Nat.pow_le_pow_right Nat.two_pos (Length.bits_of_not_long h))
  unfold IntConversion.magnitude
  by_cases hmin : c.value length arg = -2 ^ 31
  · -- only the full width reaches the minimum
    have hnone : length = .none := by
      cases length with
      | none => rfl
      | hh | h => exact absurd hmin (c.value_ne_min arg (by decide))
      | l | ll | j | z | t => cases h
    subst hnone
    rw [if_pos ⟨rfl, hmin⟩, magnitude32, if_pos hmin]
  · have hfits : ¬ c.Overflows length arg := by
      rintro ⟨rfl, hover⟩
      exact hmin hover
    rw [if_neg hfits, magnitude32_eq overflow hvalue hmin]

/-- Flags as the scanner leaves them in front of the length modifier. -/
structure Flags.NoLength (flags : Flags) : Prop where
  char : flags.char = false
  short : flags.short = false
  long : flags.long = false
  longLong : flags.longLong = false

theorem Flags.NoLength.apply {flags : Flags} (h : flags.NoLength) (length : Length) :
    (length.apply flags).char = (length.apply {}).char ∧
      (length.apply flags).short = (length.apply {}).short ∧
      (length.apply flags).long = (length.apply {}).long ∧
      (length.apply flags).longLong = (length.apply {}).longLong := by
  obtain ⟨hchar, hshort, hlong, hlongLong⟩ := h
  cases length <;> simp [Length.apply, hchar, hshort, hlong, hlongLong]

/-- **The value that is converted is the argument in its type.** -/
theorem convertIntText_value (env : Env) (spec : Spec) {flags : Flags} (hflags : flags.NoLength)
    {length : Length} (hlength : length ≠ .ll) (hspec : spec.flags = length.apply flags)
    (c : IntConversion) :
    (convertIntText env spec c.byte).1 =
      ntoaLongText env.stack (c.magnitude env.overflow length (env.args spec.ap))
        (c.value length (env.args spec.ap) < 0) c.base spec.precision spec.width
        (intFlags spec.flags c.byte) := by
  obtain ⟨hchar, hshort, hlong, hlongLong⟩ := hflags.apply length
  have hnotll : (length.apply {}).longLong = false := by
    cases length <;> first
      | rfl
      | exact absurd rfl hlength
  have hvalue := c.value_lt length (env.args spec.ap)
  have hsigned : c.signed = true ↔ c.byte = ch 'i' ∨ c.byte = ch 'd' := by
    cases c <;> decide
  have hnarrow (hlong : (length.apply {}).long = false) :=
    magnitude32_value env.overflow c (env.args spec.ap) hlong
  have hwide (h : (length.apply {}).long = true ∨ c.signed = false) :
      c.magnitude env.overflow length (env.args spec.ap) =
        (c.value length (env.args spec.ap)).natAbs := by
    refine IntConversion.magnitude_eq fun hover => ?_
    rcases h with hlong | hunsigned
    · rw [hover.1] at hlong
      cases hlong
    · exact absurd hover (IntConversion.not_overflows_of_unsigned hunsigned _ _)
  generalize hv : c.value length (env.args spec.ap) = v at hvalue hnarrow hwide ⊢
  unfold IntConversion.value at hv
  unfold convertIntText
  dsimp only
  rw [intFlags_longLong, intFlags_long, intFlags_char, intFlags_short, hspec, hchar, hshort, hlong,
    hlongLong, hnotll, if_neg Bool.false_ne_true, intBase_byte]
  by_cases hc : c.signed = true
  · rw [if_pos (hsigned.mp hc)]
    rw [if_pos hc] at hv
    cases hl : (length.apply {}).long with
    | true =>
        rw [(setWidth_long _ hl).1] at hv
        rw [if_pos rfl, Env.long, hv, hwide (Or.inl hl), magnitude64_eq
          (hvalue.trans_le (Nat.pow_le_pow_right Nat.two_pos length.bits_le))]
    | false => rw [if_neg Bool.false_ne_true, Env.int, narrow_int _ hl, hv, hnarrow hl]
  · rw [if_neg (mt hsigned.mpr hc)]
    rw [if_neg hc] at hv
    have hnonneg : decide (v < 0) = false := decide_eq_false (by omega)
    have hnat : v.natAbs = ((env.args spec.ap).setWidth length.bits).toNat := by
      rw [← hv, Int.natAbs_natCast]
    rw [hnonneg, hwide (Or.inr (Bool.eq_false_of_not_eq_true hc)), hnat]
    cases hl : (length.apply {}).long with
    | true => rw [if_pos rfl, Env.ulong, (setWidth_long _ hl).2]
    | false => rw [if_neg Bool.false_ne_true, Env.uint, narrow_uint _ hl]

/-! ## Directives -/

/-- The flag word of a list of flags. -/
theorem foldl_set (flags : List Flag) (f : Flags) :
    flags.foldl Flag.set f =
      { f with
        zeropad := f.zeropad || decide (.zero ∈ flags)
        left := f.left || decide (.minus ∈ flags)
        plus := f.plus || decide (.plus ∈ flags)
        space := f.space || decide (.space ∈ flags)
        hash := f.hash || decide (.hash ∈ flags) } := by
  induction flags generalizing f with
  | nil => simp
  | cons g flags ih =>
      rw [List.foldl_cons, ih]
      cases g <;> simp [Flag.set]

/-- The flag word of a layout. -/
def Layout.flags (l : Layout) (hash : Bool) : Flags where
  zeropad := l.zero
  left := l.left
  plus := l.plus
  space := l.space
  hash := hash

/-- The width as it is read. -/
theorem Width.apply_eq (env : Env) (ap : ℕ) (flags : List Flag) (width : Width) :
    width.apply env ⟨flags.foldl Flag.set {}, 0, 0, ap⟩ =
      { flags := (layout env ap flags width).flags (decide (.hash ∈ flags))
        width := (layout env ap flags width).width
        precision := 0
        ap := ap + width.stars } := by
  rw [foldl_set]
  simp only [Bool.false_or]
  cases width with
  | absent =>
      simp only [Width.apply, layout, Layout.flags, Width.amount, Width.negative, Bool.or_false]
      rfl
  | literal n h =>
      simp only [Width.apply, layout, Layout.flags, Width.amount, Width.negative, Bool.or_false]
      rfl
  | star =>
      have hbounds := env_int_bounds env ap
      simp only [Width.apply, layout, Layout.flags, Width.amount, Width.negative]
      by_cases hneg : env.int ap < 0
      · have habs : (-env.int ap) = ((env.int ap).natAbs : ℤ) := by omega
        rw [if_pos hneg, habs, u32OfInt_natAbs (by omega), decide_eq_true hneg, Bool.or_true]
        rfl
      · have habs : u32OfInt (env.int ap) = (env.int ap).natAbs := by
          rw [← u32OfInt_natAbs (by omega : (env.int ap).natAbs < 2 ^ 32)]
          congr 1
          omega
        rw [if_neg hneg, habs, decide_eq_false hneg, Bool.or_false]
        rfl

/-- The precision as it is read. -/
theorem Precision.apply_eq (env : Env) (flags : Flags) (width ap : ℕ) (precision : Precision) :
    precision.apply env ⟨flags, width, 0, ap⟩ =
      { flags := { flags with
          precision := flags.precision || (precision.limit env ap).isSome }
        width := width
        precision := (precision.limit env ap).getD 0
        ap := ap + precision.stars } := by
  cases precision with
  | absent => simp only [Precision.apply, Precision.limit, Option.isSome_none, Bool.or_false,
      Option.getD_none, Precision.stars, Nat.add_zero]
  | dot => simp only [Precision.apply, Precision.limit, Option.isSome_some, Bool.or_true,
      Option.getD_some, Precision.stars, Nat.add_zero]
  | literal n => simp only [Precision.apply, Precision.limit, Option.isSome_some, Bool.or_true,
      Option.getD_some, Precision.stars, Nat.add_zero]
  | star =>
      have hbounds := env_int_bounds env ap
      simp only [Precision.apply, Precision.limit, Option.isSome_some, Bool.or_true,
        Option.getD_some, Precision.stars]
      congr 1
      split_ifs with hpos
      · rw [u32OfInt, Int.emod_eq_of_lt (by omega) (by omega)]
      · omega

/-- **The specification that a directive is read as.** -/
theorem Directive.spec_eq (env : Env) (d : Directive) (ap : ℕ) :
    let l := layout env ap d.flags d.width
    let limit := d.precision.limit env (ap + d.width.stars)
    d.spec env ap =
      { flags := d.conversion.length.apply
          { l.flags (decide (.hash ∈ d.flags)) with precision := limit.isSome }
        width := l.width
        precision := limit.getD 0
        ap := ap + d.width.stars + d.precision.stars } := by
  unfold Directive.spec
  dsimp only
  rw [Width.apply_eq, Precision.apply_eq]
  rfl

/-- An integer directive without precision. -/
def integerDirective (flags : List Flag) (width : Width) (length : Length) (c : IntConversion) :
    Directive := ⟨flags, width, .absent, .int length c⟩

/-- The number of digits leaves room for a sign. -/
theorem length_digits_lt_of_lt {c : IntConversion} (hc : c ≠ .b) {n : ℕ} (hn : n < 2 ^ 64) :
    (Positional.digits c.base n).length < ntoaBufferSize := by
  have hbase : 8 ≤ c.base := by
    cases c <;> first
      | decide
      | exact absurd rfl hc
  have hvalue : n < c.base ^ 22 :=
    calc n
      _ < 2 ^ 64 := hn
      _ ≤ 8 ^ 22 := by decide
      _ ≤ c.base ^ 22 := Nat.pow_le_pow_left hbase 22
  exact (Positional.length_digits_le (by omega) hvalue (by decide)).trans_lt (by decide)

theorem length_digits_lt {c : IntConversion} (hc : c ≠ .b) (length : Length) (arg : BitVec 64) :
    (Positional.digits c.base (c.value length arg).natAbs).length < ntoaBufferSize :=
  length_digits_lt_of_lt hc
    ((c.value_lt length arg).trans_le (Nat.pow_le_pow_right Nat.two_pos length.bits_le))

/-- A flag word says what a layout, a precision and `#` ask for, in a conversion. -/
structure Flags.Says (word : Flags) (l : Layout) (limit : Option ℕ) (hash : Bool)
    (c : IntConversion) : Prop where
  /-- A precision switches the zeros off. -/
  zeropad : word.zeropad = (l.zero && !limit.isSome)
  left : word.left = l.left
  plus : word.plus = (c.signed && l.plus)
  space : word.space = (c.signed && l.space)
  hash : word.hash = (hash && c.base ≠ 10)
  uppercase : word.uppercase = decide (c = .X)
  precision : word.precision = limit.isSome

theorem Flags.Says.sign_eq {word : Flags} {l : Layout} {limit : Option ℕ} {hash : Bool}
    {c : IntConversion} (h : word.Says l limit hash c) (v : ℤ) :
    word.sign (decide (v < 0)) = l.sign c.signed v := by
  unfold Flags.sign Layout.sign
  rw [h.plus, h.space]
  simp only [decide_eq_true_eq]

/-- **An integer directive is handed to `_ntoa_long`**, with the magnitude of its
argument and the flags that it says. -/
theorem integer_text (env : Env) (ap : ℕ) (flags : List Flag) (width : Width)
    (precision : Precision) {length : Length} (hlength : length ≠ .ll) (c : IntConversion) :
    let l := layout env ap flags width
    let limit := precision.limit env (ap + width.stars)
    let arg := env.args (ap + width.stars + precision.stars)
    ∃ word : Flags, word.Says l limit (decide (.hash ∈ flags)) c ∧
      ((Directive.mk flags width precision (.int length c)).text env ap).1 =
        ntoaLongText env.stack (c.magnitude env.overflow length arg)
          (decide (c.value length arg < 0)) c.base (limit.getD 0) l.width word := by
  intro l limit arg
  have hspec := (Directive.mk flags width precision (.int length c)).spec_eq env ap
  change Directive.spec env _ ap = ⟨length.apply
    { l.flags (decide (.hash ∈ flags)) with precision := limit.isSome }, l.width,
    limit.getD 0, ap + width.stars + precision.stars⟩ at hspec
  generalize hscanned : { l.flags (decide (.hash ∈ flags)) with precision := limit.isSome } =
    scanned at hspec
  have hplain : scanned.NoLength := by
    rw [← hscanned]
    exact ⟨rfl, rfl, rfl, rfl⟩
  have hupper : (length.apply scanned).uppercase = false := by
    rw [← hscanned]
    cases length <;> rfl
  refine ⟨intFlags (length.apply scanned) c.byte, ?_, ?_⟩
  · rw [intFlags_word hupper, ← hscanned]
    cases length <;> exact ⟨rfl, rfl, rfl, rfl, rfl, rfl, rfl⟩
  · change (convertText env ((Directive.mk flags width precision (.int length c)).spec env ap)
      c.byte).1 = _
    rw [convertText_int, hspec, convertIntText_value env _ hplain hlength rfl]

/-- **An integer directive sends its field**, where a magnitude that overflows wraps
around. -/
theorem integerDirective_text (env : Env) (ap : ℕ) {flags : List Flag} (hhash : .hash ∉ flags)
    (width : Width) {length : Length} (hlength : length ≠ .ll) {c : IntConversion} (hc : c ≠ .b)
    (hwrap : c.Overflows length (env.args (ap + width.stars)) →
      env.overflow = BitVec.ofNat 64 (2 ^ 31))
    (hzero : (layout env ap flags width).zero = true → (layout env ap flags width).left = false →
      (layout env ap flags width).width ≤ 32) :
    ((integerDirective flags width length c).text env ap).1 =
      (layout env ap flags width).field c (c.value length (env.args (ap + width.stars))) := by
  obtain ⟨word, hword, htext⟩ := integer_text env ap flags width .absent hlength c
  have hdigits := length_digits_lt hc length (env.args (ap + width.stars))
  change _ = ntoaLongText env.stack (c.magnitude env.overflow length
    (env.args (ap + width.stars))) _ _ _ _ _ at htext
  rw [IntConversion.magnitude_eq hwrap] at htext
  have hzeropad : word.zeropad = (layout env ap flags width).zero :=
    hword.zeropad.trans (Bool.and_true _)
  have hhash' : word.hash = false := by rw [hword.hash, decide_eq_false hhash, Bool.false_and]
  refine htext.trans ((ntoaLongText_eq env.stack _ _ c.base_bounds.1 hdigits hword.precision
    hhash' ?_).trans ?_)
  · rw [hzeropad, hword.left]
    exact hzero
  · rw [hword.sign_eq, hword.uppercase]
    unfold Layout.field Layout.pad Flags.layout
    dsimp only
    rw [hzeropad, hword.left]
    rfl

/-! ## Reading back -/

theorem digitValue_digitChar {digit : ℕ} (h : digit < 16) (uppercase : Bool) :
    digitValue (digitChar digit uppercase) = some digit := by
  have hall : ∀ digit < 16, ∀ uppercase, digitValue (digitChar digit uppercase) = some digit := by
    decide
  exact hall digit h uppercase

/-- Digits are read up to the first other character. -/
theorem readDigits_append (base : ℕ) (uppercase : Bool) {ds : List ℕ} (hds : ∀ d ∈ ds, d < 16)
    (rest : List Byte) (hrest : digitValue (peek rest) = none) (v : ℕ) :
    readDigits base (ds.map (fun digit => digitChar digit uppercase) ++ rest) v =
      Positional.valueFrom base v ds := by
  induction ds generalizing v with
  | nil =>
      cases rest with
      | nil => rfl
      | cons c rest =>
          show (match digitValue c with
            | some digit => readDigits base rest (base * v + digit)
            | none => v) = v
          rw [show digitValue c = none from hrest]
  | cons d ds ih =>
      rw [List.map_cons, List.cons_append, readDigits, digitValue_digitChar
        (hds d List.mem_cons_self)]
      exact ih (fun d hd => hds d (List.mem_cons_of_mem _ hd)) _

/-- Blanks in front do not matter. -/
theorem readField_blanks (base k : ℕ) (text : List Byte) :
    readField base (List.replicate k (ch ' ') ++ text) = readField base text := by
  have hdrop : (List.replicate k (ch ' ') ++ text).dropWhile (· = ch ' ') =
      text.dropWhile (· = ch ' ') := by
    induction k with
    | zero => rfl
    | succ k ih => exact ih
  unfold readField
  rw [hdrop]

/-- A text that starts with a digit has no blanks and no sign to be skipped. -/
theorem readField_digit (base : ℕ) {text : List Byte} (h : digitValue (peek text) ≠ none) :
    readField base text = readDigits base text 0 := by
  have hno (c : Byte) (hc : digitValue c = none) : peek text ≠ c := by
    rintro rfl
    exact h hc
  have hblank : text.dropWhile (· = ch ' ') = text := by
    cases text with
    | nil => rfl
    | cons c text =>
        have hc : c ≠ ch ' ' := hno (ch ' ') (by decide)
        exact List.dropWhile_cons_of_neg (by simpa using hc)
  unfold readField
  dsimp only
  rw [hblank, if_neg (hno (ch '-') (by decide)), if_neg (hno (ch '+') (by decide))]

/-- Digits behind a sign, with blanks on both sides. -/
theorem readField_number (base : ℕ) (uppercase : Bool) (ds : List ℕ) (hds : ∀ d ∈ ds, d < 16)
    (hne : ds ≠ []) (j k : ℕ) {sign : List Byte}
    (hsign : sign = [] ∨ sign = [ch ' '] ∨ sign = [ch '+'] ∨ sign = [ch '-']) :
    readField base (List.replicate j (ch ' ') ++ (sign ++
      (ds.map (fun digit => digitChar digit uppercase) ++ List.replicate k (ch ' ')))) =
        if sign = [ch '-'] then -(Positional.value base ds : ℤ) else Positional.value base ds := by
  have hread := readDigits_append base uppercase hds (List.replicate k (ch ' '))
    (by cases k <;> rfl) 0
  have hfirst : digitValue (peek (ds.map (fun digit => digitChar digit uppercase) ++
      List.replicate k (ch ' '))) ≠ none := by
    obtain ⟨d, ds, rfl⟩ := List.exists_cons_of_ne_nil hne
    show digitValue (digitChar d uppercase) ≠ none
    rw [digitValue_digitChar (hds d List.mem_cons_self)]
    exact Option.some_ne_none d
  generalize ds.map (fun digit => digitChar digit uppercase) ++ List.replicate k (ch ' ') = text
    at hread hfirst ⊢
  have hplain := readField_digit base hfirst
  rw [hread] at hplain
  rw [readField_blanks]
  obtain rfl | rfl | rfl | rfl := hsign
  · exact hplain
  · exact (readField_blanks base 1 text).trans hplain
  · show (readDigits base text 0 : ℤ) = _
    rw [hread]
    rfl
  · show -(readDigits base text 0 : ℤ) = _
    rw [hread]
    rfl

theorem Layout.sign_cases (l : Layout) (signed : Bool) (v : ℤ) :
    l.sign signed v = [] ∨ l.sign signed v = [ch ' '] ∨ l.sign signed v = [ch '+'] ∨
      l.sign signed v = [ch '-'] := by
  unfold sign
  split_ifs
  · exact .inr (.inr (.inr rfl))
  · exact .inr (.inr (.inl rfl))
  · exact .inr (.inl rfl)
  · exact .inl rfl

theorem Layout.sign_eq_minus (l : Layout) (signed : Bool) (v : ℤ) :
    l.sign signed v = [ch '-'] ↔ v < 0 := by
  unfold sign
  split_ifs with hneg
  · exact iff_of_true rfl hneg
  · exact iff_of_false (by decide) hneg
  · exact iff_of_false (by decide) hneg
  · exact iff_of_false (by decide) hneg

/-- **A field reads back as the value.** -/
theorem Layout.readField_field (l : Layout) (c : IntConversion) (v : ℤ) :
    readField c.base (l.field c v) = v := by
  obtain ⟨hbase, hbase16⟩ := c.base_bounds
  generalize hds : Positional.digits c.base v.natAbs = ds
  have hlt : ∀ d ∈ ds, d < 16 := by
    intro d hd
    rw [← hds] at hd
    exact (Positional.lt_of_mem_digits hbase hd).trans_le hbase16
  have hne : ds ≠ [] := by
    rintro rfl
    rw [Positional.digits, List.reverse_eq_nil_iff, Positional.lowFirst_eq hbase] at hds
    cases hds
  have hvalue : Positional.value c.base ds = v.natAbs := by
    rw [← hds, Positional.value_digits]
  have hsigned : (if l.sign c.signed v = [ch '-'] then -(v.natAbs : ℤ) else v.natAbs) = v := by
    by_cases hneg : v < 0
    · rw [if_pos ((l.sign_eq_minus _ _).mpr hneg)]
      omega
    · rw [if_neg (mt (l.sign_eq_minus _ _).mp hneg)]
      omega
  have hsign := l.sign_cases c.signed v
  unfold field pad numberText
  rw [hds]
  generalize l.width - ((l.sign c.signed v).length + _) = fill
  dsimp only
  split_ifs
  · have hread := readField_number c.base (c = .X) ds hlt hne 0 fill hsign
    rw [hvalue, hsigned] at hread
    rw [List.append_assoc]
    exact hread
  · -- the zeros of the padding are digits
    have hzeros : List.replicate fill (ch '0') =
        (List.replicate fill 0).map fun digit => digitChar digit (c = .X) := by
      rw [List.map_replicate]
      rfl
    have hread := readField_number c.base (c = .X) (List.replicate fill 0 ++ ds)
      (by
        intro d hd
        rcases List.mem_append.mp hd with hd | hd
        · rw [List.eq_of_mem_replicate hd]
          decide
        · exact hlt d hd)
      (List.append_ne_nil_of_right_ne_nil _ hne) 0 0 hsign
    rw [Positional.value_zeros, hvalue, hsigned, List.map_append, ← hzeros] at hread
    rw [List.append_assoc, ← List.append_nil (_ ++ List.map _ ds)]
    exact hread
  · have hread := readField_number c.base (c = .X) ds hlt hne fill 0 hsign
    rw [hvalue, hsigned] at hread
    rw [List.append_assoc, ← List.append_nil (List.map _ ds)]
    exact hread

theorem Layout.length_pad (l : Layout) (sign number : List Byte) :
    (l.pad sign number).length = max l.width (sign.length + number.length) := by
  unfold pad
  dsimp only
  split_ifs <;> simp only [List.length_append, List.length_replicate] <;> omega

/-! ## In a format -/

/-- **Integer conversions send their fields.**  Behind what the items before it
send comes the field of the directive: the value of its argument in the type that
the length modifier names, laid out as the flags and the width ask for.  It is as
long as the width or as it takes, and reads back as the value.  For `INT_MIN` this
takes a build in which `0 - INT_MIN` wraps around. -/
theorem integer_field (env : Env) (before after : List Item) (flags : List Flag) (width : Width)
    (length : Length) (c : IntConversion) (hhash : .hash ∉ flags) (hlength : length ≠ .ll)
    (hc : c ≠ .b)
    (hwrap : c.Overflows length (env.args (taken before + width.stars)) →
      env.overflow = BitVec.ofNat 64 (2 ^ 31))
    (hzero : (layout env (taken before) flags width).zero = true →
      (layout env (taken before) flags width).left = false →
        (layout env (taken before) flags width).width ≤ 32) :
    let l := layout env (taken before) flags width
    let v := c.value length (env.args (taken before + width.stars))
    emitted env
        (formatOf (before ++ .directive (integerDirective flags width length c) :: after)) =
      (itemsText env before 0).1 ++ l.field c v ++
        (itemsText env after (taken before + width.stars + 1)).1 ∧
      (l.field c v).length =
        max l.width ((l.sign c.signed v).length + (numberText c.base (c = .X) v.natAbs).length) ∧
      readField c.base (l.field c v) = v := by
  intro l v
  refine ⟨?_, l.length_pad _ _, l.readField_field c v⟩
  have htext := integerDirective_text env (taken before) hhash width hlength hc hwrap hzero
  have htaken : (integerDirective flags width length c).taken = width.stars + 1 := by
    have hnot : ¬ (Conversion.int length c).IsLongLong := hlength
    show width.stars + 0 + Conversion.taken (.int length c) = _
    rw [Conversion.taken, if_neg hnot]
    rfl
  rw [emitted_directive, htext, htaken, ← Nat.add_assoc]

/-- `[%+08hd]` with the argument `0x18000`, of which a `short` keeps -32768. -/
theorem integer_field_short :
    let env : Env := ⟨⟨fun _ => 0, 0x80000000⟩, fun _ => 0x18000, fun _ => ⟨[], by simp⟩⟩
    let directive := integerDirective [.plus, .zero] (.literal ⟨8, []⟩ (by decide)) .h .d
    emitted env (formatOf ([.literal (ch '[') (by decide)] ++ .directive directive ::
        [.literal (ch ']') (by decide)])) =
      ch '[' :: ch '-' :: [0, 0, 3, 2, 7, 6, 8].map digitByte ++ [ch ']'] := by
  intro env directive
  have hfield := integer_field env [.literal (ch '[') (by decide)]
    [.literal (ch ']') (by decide)] [.plus, .zero] (.literal ⟨8, []⟩ (by decide)) .h .d
    (by decide) (by decide) (by decide) (fun _ => by decide) (by decide)
  exact hfield.1.trans (by decide)

end OsdevX64.Stdio
