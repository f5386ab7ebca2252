import OsdevX64.Clock.Cmos

/-!
# What `rtc_read` makes of the four formats

The conversions undo BCD, and they undo the 12-hour clock except where its face
shows 12.  The code adds 12 to the hour of an afternoon, modulo 24, and leaves
the hours of a morning as they are: noon comes out as 0 and midnight as 12
(`decode_hour`).
-/

namespace OsdevX64.Cmos

open MachineInt

/-! ## The hour -/

/-- The BCD conversion of the hour keeps the PM bit. -/
theorem bcdHour_encode : ∀ v < 24, ∀ pm ∈ [0, 0x80],
    u8 (((16 * (v / 10) + v % 10 + pm &&& 0x0F) +
      ((16 * (v / 10) + v % 10 + pm &&& 0x70) >>> 4) * 10) |||
        (16 * (v / 10) + v % 10 + pm &&& 0x80)) = v + pm := by
  decide

theorem hour12_mem (h : ℕ) : 1 ≤ hour12 h ∧ hour12 h ≤ 12 := by
  unfold hour12
  split_ifs <;> omega

/-- The first conversion leaves the hour in the clock's format, in binary. -/
theorem toBinary_hour {r : RTCRegisters} {h : ℕ} (hh : h < 24)
    (hr : r.hour = encodeHour r.registerB h) :
    (toBinary r).hour =
      if r.registerB &&& 0x02 = 0 then hour12 h + (if 12 ≤ h then 0x80 else 0) else h := by
  have hface := hour12_mem h
  have hpm : (if 12 ≤ h then 0x80 else 0) ∈ [0, 0x80] := by
    split_ifs
    · simp
    · simp
  unfold toBinary
  by_cases hb : r.registerB &&& 0x04 = 0
  · rw [if_pos hb]
    by_cases h12 : r.registerB &&& 0x02 = 0
    · rw [hr, if_pos h12, encodeHour, if_pos h12, encodeByte, if_pos hb]
      exact bcdHour_encode _ (by omega) _ hpm
    · rw [hr, if_neg h12, encodeHour, if_neg h12, encodeByte, if_pos hb]
      exact bcdHour_encode h hh 0 (by simp)
  · rw [if_neg hb, hr, encodeHour]
    simp only [encodeByte, if_neg hb]

/-- The second conversion, on the hours a 12-hour clock shows. -/
theorem afternoon_hour : ∀ h < 24,
    (if hour12 h + (if 12 ≤ h then 0x80 else 0) &&& 0x80 ≠ 0 then
      u8 (((hour12 h + (if 12 ≤ h then 0x80 else 0) &&& 0x7F) + 12) % 24)
    else hour12 h + (if 12 ≤ h then 0x80 else 0)) = if h % 12 = 0 then 12 - h else h := by
  decide

/-- **The hour of the result** is right, except for noon and midnight on a
12-hour clock, which come out exchanged. -/
theorem decode_hour {r : RTCRegisters} {h : ℕ} (hh : h < 24)
    (hr : r.hour = encodeHour r.registerB h) :
    (decode r).hour = if r.registerB &&& 0x02 = 0 ∧ h % 12 = 0 then 12 - h else h := by
  have hresult : (decode r).hour = (to24Hour (toBinary r)).hour := rfl
  have hbinary := toBinary_hour hh hr
  rw [hresult, to24Hour, toBinary_registerB]
  by_cases h12 : r.registerB &&& 0x02 = 0
  · rw [if_pos h12] at hbinary
    simp only [h12, true_and, apply_ite RTCRegisters.hour, hbinary]
    exact afternoon_hour h hh
  · rw [if_neg h12] at hbinary
    rw [if_neg (fun hc => h12 hc.1), if_neg (fun hc => h12 hc.1), hbinary]

/-! ## The whole reading -/

/-- The registers of a time encode its date. -/
theorem encode_encodesDate (b : ℕ) (t : ClockTime) : EncodesDate (encode b t) t.toClockDate :=
  ⟨rfl, rfl, rfl⟩

/-- A date and a time agree with a result. -/
def Reads (t : ClockTime) (d : DateTime) : Prop :=
  d.year = t.year ∧ d.month = t.month ∧ d.day = t.day ∧
    d.hour = t.hour ∧ d.minute = t.minute ∧ d.second = t.second

/-- **`rtc_read` undoes the chip's encoding exactly on a 24-hour clock, and on a
12-hour clock at every hour but noon and midnight.** -/
theorem rtcRead_undoes_encode_iff {chip : Chip} {n fuel : ℕ} (b : ℕ) (t : ClockTime)
    (hchip : Holds chip n (encode b t)) (hfuel : n < fuel) :
    (∃ d, rtcRead chip fuel = some d ∧ Reads t d) ↔ b &&& 0x02 ≠ 0 ∨ t.hour % 12 ≠ 0 := by
  obtain ⟨hyear, hmonth, hday, -⟩ := decode_date (encode_encodesDate b t)
  have hminute : (decode (encode b t)).minute = t.minute := by
    rw [decode, to24Hour_eq]
    exact (toBinary_encodeByte (by have := t.minute_lt; omega)).2.2.2.1 rfl
  have hsecond : (decode (encode b t)).second = t.second := by
    rw [decode, to24Hour_eq]
    exact (toBinary_encodeByte (by have := t.second_lt; omega)).2.2.2.2 rfl
  have hhour : (decode (encode b t)).hour =
      if b &&& 0x02 = 0 ∧ t.hour % 12 = 0 then 12 - t.hour else t.hour :=
    decode_hour t.hour_lt rfl
  rw [rtcRead_of_holds hchip hfuel]
  constructor
  · rintro ⟨d, hd, -, -, -, hright, -, -⟩
    rw [← Option.some.inj hd, hhour] at hright
    by_contra hnot
    obtain ⟨hb, hface⟩ := not_or.mp hnot
    rw [if_pos ⟨not_not.mp hb, not_not.mp hface⟩] at hright
    omega
  · intro hformat
    refine ⟨_, rfl, hyear, hmonth, hday, ?_, hminute, hsecond⟩
    rw [hhour, if_neg]
    rintro ⟨hb, hface⟩
    exact hformat.elim (fun h => h hb) (fun h => h hface)

/-- In BCD on a 12-hour clock, `23:59:59` is read back. -/
theorem rtcRead_undoes_encode_iff_newYearsEve :
    Holds (steady (encode 0 newYearsEve)) 0 (encode 0 newYearsEve) ∧
      ∃ d, rtcRead (steady (encode 0 newYearsEve)) 1 = some d ∧ Reads newYearsEve d :=
  have hchip := steady_holds (r := encode 0 newYearsEve) (by decide)
  ⟨hchip, (rtcRead_undoes_encode_iff 0 newYearsEve hchip (by decide)).mpr (.inr (by decide))⟩

/-- Noon on a 12-hour clock in BCD. -/
def noon : ClockTime where
  toClockDate := newYearsEve.toClockDate
  hour := 12
  minute := 0
  second := 0
  hour_lt := by decide
  minute_lt := by decide
  second_lt := by decide

/-- Noon on a 12-hour clock in BCD is read as hour 0. -/
theorem noon_read_as_midnight :
    Holds (steady (encode 0 noon)) 0 (encode 0 noon) ∧
      (rtcRead (steady (encode 0 noon)) 1).map DateTime.hour = some 0 ∧
      ¬ ∃ d, rtcRead (steady (encode 0 noon)) 1 = some d ∧ Reads noon d := by
  have hhour : (rtcRead (steady (encode 0 noon)) 1).map DateTime.hour = some 0 := by decide
  refine ⟨steady_holds (by decide), hhour, ?_⟩
  rintro ⟨d, hd, -, -, -, hnoon, -, -⟩
  rw [hd, Option.map_some] at hhour
  exact absurd (hnoon.symm.trans (Option.some.inj hhour)) (by decide)

end OsdevX64.Cmos
