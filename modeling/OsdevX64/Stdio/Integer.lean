import OsdevX64.Stdio.Output

/-!
# Integer output

`_out_rev`, `_ntoa_format` and `_ntoa_long` of `stdio.c`.  The digits of a
number are collected in a buffer of 32 bytes from the least significant on; the
prefix and the sign are appended and the buffer is sent in reverse.

The flag word is a record with one field for each `FLAGS_` bit, and the digit
buffer is tracked together with its length.
-/

namespace OsdevX64.Stdio

open ByteMemory MachineInt

/-- The flag word. -/
structure Flags where
  zeropad : Bool := false
  left : Bool := false
  plus : Bool := false
  space : Bool := false
  hash : Bool := false
  uppercase : Bool := false
  char : Bool := false
  short : Bool := false
  long : Bool := false
  longLong : Bool := false
  precision : Bool := false
  deriving DecidableEq, Repr

/-- `PRINTF_NTOA_BUFFER_SIZE`. -/
def ntoaBufferSize : ℕ := 32

/-- The array `buf` with its length `len`. -/
structure Digits where
  buf : Tracked ℕ Byte
  len : ℕ

/-- `buf[len++] = c`. -/
def Digits.push (d : Digits) (c : Byte) : Digits :=
  { buf := d.buf.write d.len c, len := d.len + 1 }

/-- A loop that stores the same character `count` times. -/
def Digits.pushMany (d : Digits) (c : Byte) : ℕ → Digits
  | 0 => d
  | count + 1 => (d.push c).pushMany c count

/-- `buf[len++] = c` where there is room. -/
def Digits.pushRoom (d : Digits) (c : Byte) : Digits :=
  if d.len < ntoaBufferSize then d.push c else d

/-! ## `_out_rev` -/

/-- The loop that sends the digits. -/
def outDigits (o : Out) (buf : Tracked ℕ Byte) : ℕ → Out × Tracked ℕ Byte
  | 0 => (o, buf)
  | len + 1 =>
      let (c, buf) := buf.read len
      outDigits (o.put c) buf len

/-- `_out_rev`.  The padding loops run for as long as the number is shorter than
the width. -/
def outRev (o : Out) (d : Digits) (width : ℕ) (flags : Flags) : Out × Digits :=
  let startIdx := o.idx
  let o := if !flags.left && !flags.zeropad then o.putMany (ch ' ') (width - d.len) else o
  let (o, buf) := outDigits o d.buf d.len
  let o := if flags.left then o.putMany (ch ' ') (width - sub64 o.idx startIdx) else o
  (o, { d with buf := buf })

/-! ## `_ntoa_format` -/

/-- The padding with zeros and the width that is left. -/
def padZeros (d : Digits) (negative : Bool) (prec width : ℕ) (flags : Flags) : Digits × ℕ :=
  if flags.left then (d, width)
  else
    let width :=
      if width ≠ 0 && flags.zeropad && (negative || (flags.plus || flags.space)) then width - 1
      else width
    let d := d.pushMany (ch '0') (min prec ntoaBufferSize - d.len)
    let d := if flags.zeropad then d.pushMany (ch '0') (min width ntoaBufferSize - d.len) else d
    (d, width)

/-- Under `FLAGS_HASH`: make room for the prefix in a number that was padded to
the precision or to the width. -/
def takeBack (d : Digits) (base prec width : ℕ) (flags : Flags) : Digits :=
  if !flags.precision && d.len ≠ 0 && (d.len = prec || d.len = width) then
    let d := { d with len := d.len - 1 }
    if d.len ≠ 0 && base = 16 then { d with len := d.len - 1 } else d
  else d

/-- Under `FLAGS_HASH`: the letter of the base. -/
def addBaseLetter (d : Digits) (base : ℕ) (flags : Flags) : Digits :=
  if base = 16 && !flags.uppercase then d.pushRoom (ch 'x')
  else if base = 16 && flags.uppercase then d.pushRoom (ch 'X')
  else if base = 2 then d.pushRoom (ch 'b')
  else d

/-- The prefix. -/
def addPrefix (d : Digits) (base prec width : ℕ) (flags : Flags) : Digits :=
  if flags.hash then
    let d := takeBack d base prec width flags
    let d := addBaseLetter d base flags
    d.pushRoom (ch '0')
  else d

/-- The sign. -/
def addSign (d : Digits) (negative : Bool) (flags : Flags) : Digits :=
  if negative then d.pushRoom (ch '-')
  else if flags.plus then d.pushRoom (ch '+')
  else if flags.space then d.pushRoom (ch ' ')
  else d

/-- `_ntoa_format`. -/
def ntoaFormat (o : Out) (d : Digits) (negative : Bool) (base prec width : ℕ) (flags : Flags) :
    Out × Digits :=
  let (d, width) := padZeros d negative prec width flags
  let d := addPrefix d base prec width flags
  let d := addSign d negative flags
  outRev o d width flags

/-! ## `_ntoa_long` -/

/-- One digit as a character. -/
def digitChar (digit : ℕ) (uppercase : Bool) : Byte :=
  if digit < 10 then BitVec.ofNat 8 ((ch '0').toNat + digit)
  else BitVec.ofNat 8 ((if uppercase then ch 'A' else ch 'a').toNat + digit - 10)

/-- The loop that takes the digits off; `room` is what is left of the buffer. -/
def ntoaDigits (base : ℕ) (uppercase : Bool) : ℕ → ℕ → Digits → Digits
  | 0, _, d => d
  | room + 1, value, d =>
      let d := d.push (digitChar (value % base) uppercase)
      if value / base ≠ 0 then ntoaDigits base uppercase room (value / base) d else d

/-- `_ntoa_long`; `stack` is what the array `buf` holds on entry. -/
def ntoaLong (stack : Memory ℕ) (o : Out) (value : ℕ) (negative : Bool) (base prec width : ℕ)
    (flags : Flags) : Out × Digits :=
  let d : Digits := { buf := Tracked.fresh stack, len := 0 }
  let flags := if value = 0 then { flags with hash := false } else flags
  let d :=
    if !flags.precision || value ≠ 0 then
      ntoaDigits base flags.uppercase ntoaBufferSize value d
    else d
  ntoaFormat o d negative base prec width flags

end OsdevX64.Stdio
