import OsdevX64.Stdio.Integer

/-!
# The format loop

`_vsnprintf` of `stdio.c`.  The format is the list of bytes that are left before
the NUL, so `*format` is `peek` and `format++` is `advance`; to advance past the
NUL is the fault `overrun`.  Every `format++` of the source outside its two
scanning loops (`scanFlags`, `atoi`) goes through `advance`.

The arguments are 64-bit slots, read as the type that `va_arg` names, and `ap`
counts the slots that were taken.  The loop over the format has a fuel, which is
never used up: `vsnprintfCore` gives it one unit for each byte and the NUL.
-/

namespace OsdevX64.Stdio

open ByteMemory MachineInt

/-- What C leaves open and the build decides. -/
structure Build where
  /-- What the stack holds where nothing has been written. -/
  stack : Memory ℕ
  /-- What is passed on for `0 - INT_MIN`, which overflows. -/
  overflow : BitVec 64

/-- What the caller passes besides the format: arguments and the strings at their
addresses; and the build. -/
structure Env extends Build where
  args : ℕ → BitVec 64
  strings : BitVec 64 → CString

/-- `va_arg(va, int)`. -/
def Env.int (env : Env) (ap : ℕ) : ℤ := ((env.args ap).setWidth 32).toInt

/-- `va_arg(va, unsigned int)`. -/
def Env.uint (env : Env) (ap : ℕ) : ℕ := ((env.args ap).setWidth 32).toNat

/-- `va_arg(va, long)`. -/
def Env.long (env : Env) (ap : ℕ) : ℤ := (env.args ap).toInt

/-- `va_arg(va, unsigned long)`. -/
def Env.ulong (env : Env) (ap : ℕ) : ℕ := (env.args ap).toNat

/-- What can go wrong. -/
inductive Fault
  /-- The format pointer moved beyond the NUL. -/
  | overrun
  | outOfFuel
  deriving DecidableEq, Repr

/-- `*format`. -/
def peek (format : List Byte) : Byte := format.headD 0

/-- `format++`. -/
def advance : List Byte → Except Fault (List Byte)
  | [] => .error .overrun
  | _ :: rest => .ok rest

/-- `_is_digit`. -/
def isDigit (c : Byte) : Bool := (ch '0').toNat ≤ c.toNat && c.toNat ≤ (ch '9').toNat

/-- The loop of `_atoi`, with the value so far. -/
def atoi : List Byte → ℕ → ℕ × List Byte
  | [], i => (i, [])
  | c :: rest, i =>
      if isDigit c then atoi rest (u32 (u32 (i * 10) + (c.toNat - (ch '0').toNat)))
      else (i, c :: rest)

/-! ## Flags, width, precision and length -/

/-- The loop over the flag characters. -/
def scanFlags : List Byte → Flags → Flags × List Byte
  | [], flags => (flags, [])
  | c :: rest, flags =>
      if c = ch '0' then scanFlags rest { flags with zeropad := true }
      else if c = ch '-' then scanFlags rest { flags with left := true }
      else if c = ch '+' then scanFlags rest { flags with plus := true }
      else if c = ch ' ' then scanFlags rest { flags with space := true }
      else if c = ch '#' then scanFlags rest { flags with hash := true }
      else (flags, c :: rest)

/-- A conversion specification as far as it has been scanned. -/
structure Spec where
  flags : Flags
  width : ℕ
  precision : ℕ
  ap : ℕ

/-- The width. -/
def scanWidth (env : Env) (spec : Spec) (format : List Byte) :
    Except Fault (Spec × List Byte) :=
  if isDigit (peek format) then
    let (width, format) := atoi format 0
    .ok ({ spec with width := width }, format)
  else if peek format = ch '*' then do
    let w := env.int spec.ap
    let spec :=
      if w < 0 then
        { spec with
          flags := { spec.flags with left := true }, width := u32OfInt (-w), ap := spec.ap + 1 }
      else { spec with width := u32OfInt w, ap := spec.ap + 1 }
    let format ← advance format
    return (spec, format)
  else .ok (spec, format)

/-- The precision. -/
def scanPrecision (env : Env) (spec : Spec) (format : List Byte) :
    Except Fault (Spec × List Byte) :=
  if peek format = ch '.' then do
    let spec := { spec with flags := { spec.flags with precision := true } }
    let format ← advance format
    if isDigit (peek format) then
      let (precision, format) := atoi format 0
      return ({ spec with precision := precision }, format)
    else if peek format = ch '*' then
      let prec := env.int spec.ap
      let spec :=
        { spec with precision := if prec > 0 then u32OfInt prec else 0, ap := spec.ap + 1 }
      let format ← advance format
      return (spec, format)
    else return (spec, format)
  else .ok (spec, format)

/-- The length modifier.  `long`, `ptrdiff_t`, `intmax_t` and `size_t` have the
same size. -/
def scanLength (spec : Spec) (format : List Byte) : Except Fault (Spec × List Byte) :=
  let set (flags : Flags) : Spec := { spec with flags := flags }
  if peek format = ch 'l' then do
    let format ← advance format
    if peek format = ch 'l' then
      let format ← advance format
      return (set { spec.flags with long := true, longLong := true }, format)
    else return (set { spec.flags with long := true }, format)
  else if peek format = ch 'h' then do
    let format ← advance format
    if peek format = ch 'h' then
      let format ← advance format
      return (set { spec.flags with short := true, char := true }, format)
    else return (set { spec.flags with short := true }, format)
  else if peek format = ch 't' ∨ peek format = ch 'j' ∨ peek format = ch 'z' then do
    let format ← advance format
    return (set { spec.flags with long := true }, format)
  else .ok (spec, format)

/-- From behind the `%` to the conversion character. -/
def scanSpec (env : Env) (format : List Byte) (ap : ℕ) : Except Fault (Spec × List Byte) := do
  let (flags, format) := scanFlags format {}
  let (spec, format) ← scanWidth env { flags := flags, width := 0, precision := 0, ap := ap } format
  let (spec, format) ← scanPrecision env spec format
  scanLength spec format

/-! ## Conversions -/

/-- The base of an integer conversion. -/
def intBase (c : Byte) : ℕ :=
  if c = ch 'x' ∨ c = ch 'X' then 16
  else if c = ch 'o' then 8
  else if c = ch 'b' then 2
  else 10

/-- The flags with which an integer is converted. -/
def intFlags (flags : Flags) (c : Byte) : Flags :=
  let flags := if intBase c = 10 then { flags with hash := false } else flags
  let flags := if c = ch 'X' then { flags with uppercase := true } else flags
  let flags :=
    if c ≠ ch 'i' ∧ c ≠ ch 'd' then { flags with plus := false, space := false } else flags
  if flags.precision then { flags with zeropad := false } else flags

/-- `(unsigned int)(value > 0 ? value : 0 - value)`, of an `int`, as `_ntoa_long` gets
it.  The subtraction overflows for `INT_MIN`: with wraparound that gives `2 ^ 31`, an
optimising compiler may drop the cast and pass `0xFFFFFFFF80000000`. -/
def magnitude32 (overflow : BitVec 64) (value : ℤ) : ℕ :=
  if value = -2 ^ 31 then overflow.toNat
  else u32OfInt (if value > 0 then value else 0 - value)

/-- `(unsigned long)(value > 0 ? value : 0 - value)`, of a `long`.  For `LONG_MIN` this
is the wraparound of a 64-bit negation, by stipulation. -/
def magnitude64 (value : ℤ) : ℕ := u64OfInt (if value > 0 then value else 0 - value)

/-- The cases `d`, `i`, `u`, `x`, `X`, `o` and `b`.  With `ll` the source does
nothing. -/
def convertInt (env : Env) (o : Out) (spec : Spec) (c : Byte) : Out × ℕ :=
  let flags := intFlags spec.flags c
  let ntoa (value : ℕ) (negative : Bool) : Out × ℕ :=
    ((ntoaLong env.stack o value negative (intBase c) spec.precision spec.width flags).1,
      spec.ap + 1)
  -- not even the argument is taken
  if flags.longLong then (o, spec.ap)
  else if c = ch 'i' ∨ c = ch 'd' then
    if flags.long then
      let value := env.long spec.ap
      ntoa (magnitude64 value) (value < 0)
    else
      let value := env.int spec.ap
      let value := if flags.char then i8 value else if flags.short then i16 value else value
      ntoa (magnitude32 env.overflow value) (value < 0)
  else
    if flags.long then ntoa (env.ulong spec.ap) false
    else
      let value := env.uint spec.ap
      ntoa (if flags.char then u8 value else if flags.short then u16 value else value) false

/-- The case `c`. -/
def convertChar (env : Env) (o : Out) (spec : Spec) : Out × ℕ :=
  let o := if !spec.flags.left then o.putMany (ch ' ') (spec.width - 1) else o
  let o := o.put ((env.args spec.ap).setWidth 8)
  let o := if spec.flags.left then o.putMany (ch ' ') (spec.width - 1) else o
  (o, spec.ap + 1)

/-- The loop of `_strnlen_s`. -/
def strnlen : List Byte → ℕ → ℕ
  | [], _ => 0
  | _ :: _, 0 => 0
  | _ :: s, maxsize + 1 => strnlen s maxsize + 1

/-- The loop that sends a string. -/
def outString (o : Out) (limited : Bool) : List Byte → ℕ → Out
  | [], _ => o
  | c :: p, precision =>
      if !limited then outString (o.put c) limited p precision
      else if precision ≠ 0 then outString (o.put c) limited p (precision - 1)
      else o

/-- The case `s`. -/
def convertString (env : Env) (o : Out) (spec : Spec) : Out × ℕ :=
  let p := (env.strings (env.args spec.ap)).bytes
  let l := u32 (strnlen p (if spec.precision ≠ 0 then spec.precision else 2 ^ 64 - 1))
  let l := if spec.flags.precision then (if l < spec.precision then l else spec.precision) else l
  let o := if !spec.flags.left then o.putMany (ch ' ') (spec.width - l) else o
  let o := outString o spec.flags.precision p spec.precision
  let o := if spec.flags.left then o.putMany (ch ' ') (spec.width - l) else o
  (o, spec.ap + 1)

/-- The case `p`. -/
def convertPointer (env : Env) (o : Out) (spec : Spec) : Out × ℕ :=
  let flags := { spec.flags with zeropad := true, uppercase := true }
  ((ntoaLong env.stack o (env.ulong spec.ap) false 16 spec.precision 16 flags).1, spec.ap + 1)

/-- The conversion characters of integers. -/
def isIntConversion (c : Byte) : Bool :=
  [ch 'd', ch 'i', ch 'u', ch 'x', ch 'X', ch 'o', ch 'b'].contains c

/-- The conversion switch; the character itself is sent for `%` and by default. -/
def convert (env : Env) (o : Out) (spec : Spec) (c : Byte) : Out × ℕ :=
  if isIntConversion c then convertInt env o spec c
  else if c = ch 'c' then convertChar env o spec
  else if c = ch 's' then convertString env o spec
  else if c = ch 'p' then convertPointer env o spec
  else (o.put c, spec.ap)

/-! ## The loop -/

/-- The loop `while(*format)`. -/
def formatLoop (env : Env) : ℕ → Out → List Byte → ℕ → Except Fault Out
  | 0, _, _, _ => .error .outOfFuel
  | fuel + 1, o, format, ap =>
      if peek format = 0 then .ok o
      else if peek format ≠ ch '%' then do
        let rest ← advance format
        formatLoop env fuel (o.put (peek format)) rest ap
      else do
        let format ← advance format
        let (spec, format) ← scanSpec env format ap
        let (o, ap) := convert env o spec (peek format)
        -- steps over the conversion character, also where it is the NUL
        let format ← advance format
        formatLoop env fuel o format ap

/-- What a call leaves: the returned `int` and the output. -/
structure Result where
  ret : ℤ
  out : Out

/-- The output at the start of a call. -/
def Out.start (buffer : Option (Tracked ℕ Byte)) (maxlen : ℕ) : Out where
  buffer := buffer
  maxlen := maxlen
  idx := 0
  idx_lt := by decide
  sent := []

/-- The end of a call: send the NUL and return the index. -/
def Out.finish (o : Out) : Result where
  ret := i32 o.idx
  out := o.out 0 (if o.idx < o.maxlen then o.idx else sub64 o.maxlen 1)

/-- `_vsnprintf` with `_out_buffer`. -/
def vsnprintfCore (env : Env) (buffer : Option (Tracked ℕ Byte)) (maxlen : ℕ)
    (format : CString) : Except Fault Result := do
  let o ← formatLoop env (format.bytes.length + 1) (Out.start buffer maxlen) format.bytes 0
  return o.finish

/-- `vsnprintf`, and `snprintf`. -/
def vsnprintf (env : Env) (buffer : Option (Tracked ℕ Byte)) (count : ℕ) (format : CString) :
    Except Fault Result :=
  vsnprintfCore env buffer count format

/-- `sprintf`: no limit but that of `size_t`. -/
def sprintf (env : Env) (buffer : Option (Tracked ℕ Byte)) (format : CString) :
    Except Fault Result :=
  vsnprintfCore env buffer (2 ^ 64 - 1) format

end OsdevX64.Stdio
