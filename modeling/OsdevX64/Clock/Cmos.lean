import OsdevX64.Lib.Gregorian
import OsdevX64.Lib.MachineInt

/-!
# The real-time clock of `cmos.c`

`rtc_read` waits until the chip is not updating, copies seven registers and turns
them into a date and a time.  The chip answers each read of the data port with a
byte that may depend on when it is read (`Chip`); `Holds` says that it has been
busy for a while and then keeps its registers still for the seven reads, and
`rtcRead_of_holds` reduces `rtc_read` to the decoding of those registers.

The encoding is the chip's: `encodeByte` and `encodeHour` write a number and an
hour in the format that register B selects.
-/

namespace OsdevX64.Cmos

open MachineInt

/-! ## The source -/

/-- The answers of the chip: the byte at the `t`-th read of the data port, with
register `r` selected. -/
abbrev Chip := ℕ → ℕ → ℕ

/-- `RTC_Registers`. -/
structure RTCRegisters where
  year : ℕ
  month : ℕ
  day : ℕ
  hour : ℕ
  minute : ℕ
  second : ℕ
  registerB : ℕ
  deriving DecidableEq, Repr

/-- `DateTime`. -/
structure DateTime where
  year : ℕ
  month : ℕ
  day : ℕ
  hour : ℕ
  minute : ℕ
  second : ℕ
  weekday : ℕ
  deriving DecidableEq, Repr

/-- `rtc_read_register`, at the `t`-th read. -/
def rtcReadRegister (chip : Chip) (t r : ℕ) : ℕ := u8 (chip t r)

/-- `rtc_ready`: the update-in-progress bit of status register A. -/
def rtcReady (chip : Chip) (t : ℕ) : ℕ := rtcReadRegister chip t 0x0A &&& 0x80

/-- `while(rtc_ready()) {}` from the `t`-th read on: the first read after the
loop, if the loop ends within `fuel` turns. -/
def rtcWait (chip : Chip) : ℕ → ℕ → Option ℕ
  | 0, _ => none
  | fuel + 1, t => if rtcReady chip t ≠ 0 then rtcWait chip fuel (t + 1) else some (t + 1)

/-- `rtc_read_registers` after its wait. -/
def rtcReadRegisters (chip : Chip) (t : ℕ) : RTCRegisters where
  year := rtcReadRegister chip t 0x09
  month := rtcReadRegister chip (t + 1) 0x08
  day := rtcReadRegister chip (t + 2) 0x07
  hour := rtcReadRegister chip (t + 3) 0x04
  minute := rtcReadRegister chip (t + 4) 0x02
  second := rtcReadRegister chip (t + 5) 0x00
  registerB := rtcReadRegister chip (t + 6) 0x0B

/-- `weekday`, on unsigned 32-bit numbers. -/
def weekday (d m y : ℕ) : ℕ :=
  let d' := u32 (d + if m < 3 then y else sub32 y 2)
  let y' := if m < 3 then sub32 y 1 else y
  u32 (sub32 (u32 (u32 (u32 (u32 (23 * m) / 9 + d') + 4) + y' / 4)) (y' / 100) + y' / 400) % 7

/-- `bcd_to_binary`. -/
def bcdToBinary (v : ℕ) : ℕ := (v &&& 0x0F) + (v >>> 4) * 10

/-- The first conversion of `rtc_read`: BCD to binary, except for the PM bit. -/
def toBinary (r : RTCRegisters) : RTCRegisters :=
  if r.registerB &&& 0x04 = 0 then
    { r with
      year := u8 (bcdToBinary r.year)
      month := u8 (bcdToBinary r.month)
      day := u8 (bcdToBinary r.day)
      hour := u8 (((r.hour &&& 0x0F) + ((r.hour &&& 0x70) >>> 4) * 10) ||| (r.hour &&& 0x80))
      minute := u8 (bcdToBinary r.minute)
      second := u8 (bcdToBinary r.second) }
  else r

/-- The second conversion of `rtc_read`: 12 to 24-hour clock. -/
def to24Hour (r : RTCRegisters) : RTCRegisters :=
  if r.registerB &&& 0x02 = 0 ∧ r.hour &&& 0x80 ≠ 0 then
    { r with hour := u8 (((r.hour &&& 0x7F) + 12) % 24) }
  else r

/-- The result of `rtc_read`; the weekday is that of the two-digit year. -/
def dateTime (r : RTCRegisters) : DateTime where
  year := u16 ((if r.year < 70 then 2000 else 1900) + r.year)
  month := r.month
  day := r.day
  hour := r.hour
  minute := r.minute
  second := r.second
  weekday := u8 (weekday r.day r.month r.year)

/-- What `rtc_read` makes of the registers. -/
def decode (r : RTCRegisters) : DateTime := dateTime (to24Hour (toBinary r))

/-- `rtc_read`, if its wait ends within `fuel` turns. -/
def rtcRead (chip : Chip) (fuel : ℕ) : Option DateTime :=
  (rtcWait chip fuel 0).map fun t => decode (rtcReadRegisters chip t)

/-! ## What the chip holds -/

/-- A date the two-digit year can stand for. -/
structure ClockDate extends Gregorian.Date where
  year_mem : 1970 ≤ year ∧ year ≤ 2069

/-- A date and a time of the day. -/
structure ClockTime extends ClockDate where
  hour : ℕ
  minute : ℕ
  second : ℕ
  hour_lt : hour < 24
  minute_lt : minute < 60
  second_lt : second < 60

/-- A number below 100 in the data format of register B: BCD or binary. -/
def encodeByte (b v : ℕ) : ℕ := if b &&& 0x04 = 0 then 16 * (v / 10) + v % 10 else v

/-- The hour on the face of a 12-hour clock. -/
def hour12 (h : ℕ) : ℕ := if h % 12 = 0 then 12 else h % 12

/-- An hour in the formats of register B: on the 12-hour clock with bit 7 for
the hours from noon on. -/
def encodeHour (b h : ℕ) : ℕ :=
  if b &&& 0x02 = 0 then encodeByte b (hour12 h) + (if 12 ≤ h then 0x80 else 0)
  else encodeByte b h

/-- The registers that hold a date and a time in the format of register B. -/
def encode (b : ℕ) (t : ClockTime) : RTCRegisters where
  year := encodeByte b (t.year % 100)
  month := encodeByte b t.month
  day := encodeByte b t.day
  hour := encodeHour b t.hour
  minute := encodeByte b t.minute
  second := encodeByte b t.second
  registerB := b

/-- The registers hold a date; whatever they hold for the time of the day. -/
structure EncodesDate (r : RTCRegisters) (t : ClockDate) : Prop where
  year : r.year = encodeByte r.registerB (t.year % 100)
  month : r.month = encodeByte r.registerB t.month
  day : r.day = encodeByte r.registerB t.day

/-- The chip is updating during the first `n` reads, then shows that it is not,
and keeps its registers at `r` for the seven reads that follow. -/
structure Holds (chip : Chip) (n : ℕ) (r : RTCRegisters) : Prop where
  busy : ∀ t < n, rtcReady chip t ≠ 0
  ready : rtcReady chip n = 0
  year : ∀ t, n < t → t ≤ n + 7 → rtcReadRegister chip t 0x09 = r.year
  month : ∀ t, n < t → t ≤ n + 7 → rtcReadRegister chip t 0x08 = r.month
  day : ∀ t, n < t → t ≤ n + 7 → rtcReadRegister chip t 0x07 = r.day
  hour : ∀ t, n < t → t ≤ n + 7 → rtcReadRegister chip t 0x04 = r.hour
  minute : ∀ t, n < t → t ≤ n + 7 → rtcReadRegister chip t 0x02 = r.minute
  second : ∀ t, n < t → t ≤ n + 7 → rtcReadRegister chip t 0x00 = r.second
  registerB : ∀ t, n < t → t ≤ n + 7 → rtcReadRegister chip t 0x0B = r.registerB

/-- The wait ends with the first read that shows the flag clear. -/
theorem rtcWait_eq {chip : Chip} {fuel t n : ℕ} (htn : t ≤ n) (hfuel : n - t < fuel)
    (hbusy : ∀ k, t ≤ k → k < n → rtcReady chip k ≠ 0) (hready : rtcReady chip n = 0) :
    rtcWait chip fuel t = some (n + 1) := by
  induction fuel generalizing t with
  | zero => exact absurd hfuel (Nat.not_lt_zero _)
  | succ fuel ih =>
      rw [rtcWait]
      rcases Nat.lt_or_eq_of_le htn with hlt | rfl
      · rw [if_pos (hbusy t le_rfl hlt)]
        exact ih hlt (by omega) fun k hk => hbusy k (by omega)
      · rw [if_neg (not_not.mpr hready)]

/-- **`rtc_read` decodes the registers the chip holds**, once it has waited long
enough. -/
theorem rtcRead_of_holds {chip : Chip} {n fuel : ℕ} {r : RTCRegisters} (h : Holds chip n r)
    (hfuel : n < fuel) : rtcRead chip fuel = some (decode r) := by
  have hregisters : rtcReadRegisters chip (n + 1) = r := by
    rw [rtcReadRegisters, h.year _ (by omega) (by omega), h.month _ (by omega) (by omega),
      h.day _ (by omega) (by omega), h.hour _ (by omega) (by omega),
      h.minute _ (by omega) (by omega), h.second _ (by omega) (by omega),
      h.registerB _ (by omega) (by omega)]
  have hwait : rtcWait chip fuel 0 = some (n + 1) :=
    rtcWait_eq (Nat.zero_le n) (by omega) (fun k _ hk => h.busy k hk) h.ready
  rw [rtcRead, hwait, Option.map_some, hregisters]

/-! ## Decoding -/

theorem bcdToBinary_eq (v : ℕ) : bcdToBinary v = v % 16 + v / 16 * 10 := by
  rw [bcdToBinary, show (0x0F : ℕ) = 2 ^ 4 - 1 from rfl, Nat.and_two_pow_sub_one_eq_mod,
    Nat.shiftRight_eq_div_pow]

/-- **BCD decoding undoes BCD encoding.** -/
theorem bcdToBinary_encode {v : ℕ} (hv : v < 100) :
    u8 (bcdToBinary (16 * (v / 10) + v % 10)) = v := by
  rw [bcdToBinary_eq, u8]
  omega

/-- The first conversion leaves register B alone. -/
@[simp] theorem toBinary_registerB (r : RTCRegisters) :
    (toBinary r).registerB = r.registerB := by
  unfold toBinary
  split_ifs <;> rfl

/-- The first conversion undoes the data format of every register but the hour. -/
theorem toBinary_encodeByte {r : RTCRegisters} {v : ℕ} (hv : v < 100) :
    (r.year = encodeByte r.registerB v → (toBinary r).year = v) ∧
      (r.month = encodeByte r.registerB v → (toBinary r).month = v) ∧
      (r.day = encodeByte r.registerB v → (toBinary r).day = v) ∧
      (r.minute = encodeByte r.registerB v → (toBinary r).minute = v) ∧
      (r.second = encodeByte r.registerB v → (toBinary r).second = v) := by
  unfold toBinary encodeByte
  by_cases hb : r.registerB &&& 0x04 = 0
  · simp only [if_pos hb]
    refine ⟨?_, ?_, ?_, ?_, ?_⟩ <;> intro h <;> rw [h, bcdToBinary_encode hv]
  · simp only [if_neg hb]
    exact ⟨id, id, id, id, id⟩

/-- The second conversion changes the hour only. -/
theorem to24Hour_eq (r : RTCRegisters) : to24Hour r = { r with hour := (to24Hour r).hour } := by
  unfold to24Hour
  split_ifs <;> rfl

/-- **The date of the result** is the date the registers hold. -/
theorem decode_date {r : RTCRegisters} {t : ClockDate} (h : EncodesDate r t) :
    (decode r).year = t.year ∧ (decode r).month = t.month ∧ (decode r).day = t.day ∧
      (decode r).weekday = u8 (weekday t.day t.month (t.year % 100)) := by
  have hday := t.day_le
  have hmonth := t.month_mem
  have hyear := t.year_mem
  have hy : (toBinary r).year = t.year % 100 :=
    (toBinary_encodeByte (Nat.mod_lt _ (by omega))).1 h.year
  have hm : (toBinary r).month = t.month := (toBinary_encodeByte (by omega)).2.1 h.month
  have hd : (toBinary r).day = t.day := (toBinary_encodeByte (by omega)).2.2.1 h.day
  rw [decode, to24Hour_eq]
  simp only [dateTime, hy, hm, hd, and_true]
  unfold u16
  split_ifs <;> omega

/-! ## A chip at rest -/

/-- A chip that is not updating and never changes its registers. -/
def steady (r : RTCRegisters) : Chip := fun _ register =>
  match register with
  | 0x09 => r.year
  | 0x08 => r.month
  | 0x07 => r.day
  | 0x04 => r.hour
  | 0x02 => r.minute
  | 0x00 => r.second
  | 0x0B => r.registerB
  | _ => 0

/-- It holds any bytes, from the first read on. -/
theorem steady_holds {r : RTCRegisters} (h : ∀ n ∈ [r.year, r.month, r.day, r.hour, r.minute,
    r.second, r.registerB], n < 256) : Holds (steady r) 0 r := by
  have hbyte : ∀ n, n < 256 → u8 n = n := fun n hn => Nat.mod_eq_of_lt hn
  simp only [List.mem_cons, List.not_mem_nil, or_false, forall_eq_or_imp, forall_eq] at h
  obtain ⟨hyear, hmonth, hday, hhour, hminute, hsecond, hb⟩ := h
  exact {
    busy := fun t ht => absurd ht (Nat.not_lt_zero t)
    ready := by simp [rtcReady, rtcReadRegister, steady, u8]
    year := fun _ _ _ => hbyte _ hyear
    month := fun _ _ _ => hbyte _ hmonth
    day := fun _ _ _ => hbyte _ hday
    hour := fun _ _ _ => hbyte _ hhour
    minute := fun _ _ _ => hbyte _ hminute
    second := fun _ _ _ => hbyte _ hsecond
    registerB := fun _ _ _ => hbyte _ hb }

/-- One second before midnight on new year's eve. -/
def newYearsEve : ClockTime where
  year := 1999
  month := 12
  day := 31
  month_mem := by decide
  day_mem := by decide
  year_mem := by decide
  hour := 23
  minute := 59
  second := 59
  hour_lt := by decide
  minute_lt := by decide
  second_lt := by decide

end OsdevX64.Cmos
