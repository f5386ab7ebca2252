import OsdevX64.Clock.Cmos

/-!
# The weekday `rtc_read` reports

`weekday` computes the Gregorian weekday of the year it is given (`weekday_of_date`).
The unsigned arithmetic wraps back to the intended sum, with one exception: the
decrement of year 0 in January and February.

`rtc_read` gives it the two digits of the clock.  From 2000 on they stand for a
year five calendar periods earlier, so the weekday is right once the year is not
decremented below 0; the years 1970 to 1999 are 1900 years away from their two
digits, which is not a whole number of weeks.
-/

namespace OsdevX64.Cmos

open MachineInt Gregorian

/-- The leap days are added without a wrap. -/
theorem add_leapDays {s y : ℕ} (h : s + y / 2 < 2 ^ 32) :
    u32 (sub32 (u32 (s + y / 4)) (y / 100) + y / 400) = s + leapDays y := by
  have hquarter : u32 (s + y / 4) = s + y / 4 := u32_of_lt (by omega)
  have hcenturies : sub32 (s + y / 4) (y / 100) = s + y / 4 - y / 100 := sub32_of_le (by omega)
  rw [hquarter, hcenturies, u32_of_lt (by omega), leapDays]
  omega

/-- In January and February the year is decremented, if it can be. -/
theorem weekday_of_lt_three {d m n : ℕ} (hd : d ≤ 31) (hm : m < 3) (hn : n < 2 ^ 31) :
    weekday d m (n + 1) = (23 * m / 9 + d + n + 5 + leapDays n) % 7 := by
  have hyear : sub32 (n + 1) 1 = n := sub32_of_le (by omega)
  have hday : u32 (d + (n + 1)) = d + n + 1 := u32_of_lt (by omega)
  have hmonth : u32 (u32 (u32 (23 * m) / 9 + (d + n + 1)) + 4) = 23 * m / 9 + d + n + 5 := by
    rw [u32_of_lt (by omega : 23 * m < 2 ^ 32),
      u32_of_lt (by omega : 23 * m / 9 + (d + n + 1) < 2 ^ 32), u32_of_lt (by omega)]
    omega
  simp only [weekday, if_pos hm]
  rw [hyear, hday, hmonth, add_leapDays (by omega)]

/-- From March on two is subtracted from the year, and a wrap below 0 is undone
by the month. -/
theorem weekday_of_three_le {d m y : ℕ} (hd : 1 ≤ d) (hd31 : d ≤ 31) (hm : 3 ≤ m)
    (hm12 : m ≤ 12) (hy : y ≤ 2 ^ 31) :
    weekday d m y = (23 * m / 9 + d + y + 2 + leapDays y) % 7 := by
  have hmonth : u32 (u32 (u32 (23 * m) / 9 + u32 (d + sub32 y 2)) + 4) =
      23 * m / 9 + d + y + 2 := by
    rw [u32_of_lt (by omega : 23 * m < 2 ^ 32)]
    generalize hA : 23 * m / 9 = A
    have hA30 : 7 ≤ A ∧ A ≤ 30 := by omega
    unfold u32 sub32
    split_ifs with hy2
    · omega
    · obtain rfl | rfl : y = 0 ∨ y = 1 := by omega
      · omega
      · omega
  simp only [weekday, if_neg (Nat.not_lt.mpr hm)]
  rw [hmonth, add_leapDays (by omega)]

/-- **The formula is the Gregorian weekday**, 400 years on for the sake of year
0, unless the year is decremented below 0. -/
theorem weekday_eq {d m y : ℕ} (hd : 1 ≤ d) (hd31 : d ≤ 31) (hm : 1 ≤ m) (hm12 : m ≤ 12)
    (hy : y ≤ 2 ^ 31) (hwrap : 3 ≤ m ∨ 1 ≤ y) :
    weekday d m y = Gregorian.weekday (y + 400) m d := by
  by_cases hm3 : m < 3
  · obtain ⟨n, rfl⟩ := Nat.exists_eq_add_of_le' (hwrap.resolve_left (Nat.not_le.mpr hm3))
    rw [weekday_of_lt_three hd31 hm3 (by omega), Gregorian.weekday, Nat.add_right_comm,
      dayNumber_of_lt_three hm hm3, leapDays_add_400]
    obtain rfl | rfl : m = 1 ∨ m = 2 := by omega
    · omega
    · omega
  · have hnumber := dayNumber_of_three_le (Nat.le_of_not_lt hm3) hm12 (y + 399) d
    rw [weekday_of_three_le hd hd31 (Nat.le_of_not_lt hm3) hm12 hy, Gregorian.weekday]
    rw [show y + 399 + 1 = y + 400 from rfl, leapDays_add_400] at hnumber
    have hmonths : (23 * m / 9 + 2) % 7 = ((153 * (m - 3) + 2) / 5 + 2) % 7 := by
      interval_cases m <;> rfl
    omega

theorem weekday_eq_dayNumber (t : Date) (hfrom : 1 ≤ t.year) (hto : t.year ≤ 2 ^ 31) :
    weekday t.day t.month t.year = dayNumber t.year t.month t.day % 7 := by
  obtain ⟨hm, hm12⟩ := t.month_mem
  rw [weekday_eq t.day_mem.1 t.day_le hm hm12 hto (.inr hfrom)]
  exact weekday_add_mul hm hm12 hfrom t.day 1

/-- **The weekday of a date** is the number of its day modulo 7, and that of the next date
is one more. -/
theorem weekday_of_date (t : Date) (hfrom : 1 ≤ t.year) (hto : t.year ≤ 2 ^ 31) :
    weekday t.day t.month t.year = dayNumber t.year t.month t.day % 7 ∧
      (t.next.year ≤ 2 ^ 31 →
        weekday t.next.day t.next.month t.next.year =
          (weekday t.day t.month t.year + 1) % 7) := by
  have hday := weekday_eq_dayNumber t hfrom hto
  refine ⟨hday, fun hnext => ?_⟩
  rw [hday, weekday_eq_dayNumber t.next (hfrom.trans t.year_le_next) hnext,
    Date.dayNumber_next hfrom, Nat.mod_add_mod]

/-- The last day of February 2000, a leap year. -/
def leapDay : Date := ⟨2000, 2, 29, by decide, by decide⟩

theorem weekday_of_date_leapDay :
    weekday leapDay.day leapDay.month leapDay.year =
        dayNumber leapDay.year leapDay.month leapDay.day % 7 ∧
      weekday leapDay.next.day leapDay.next.month leapDay.next.year =
        (weekday leapDay.day leapDay.month leapDay.year + 1) % 7 := by
  obtain ⟨hday, hnext⟩ := weekday_of_date leapDay (by decide) (by decide)
  exact ⟨hday, hnext (by decide)⟩

/-- 1900 years are not a whole number of weeks for the years after 1970. -/
theorem weekday_add_1900 {y m : ℕ} (hy : 70 ≤ y) (hy99 : y ≤ 99) (hm : 1 ≤ m) (hm12 : m ≤ 12)
    (d : ℕ) : Gregorian.weekday (y + 1900) m d ≠ Gregorian.weekday (y + 400) m d := by
  obtain ⟨n, rfl⟩ := Nat.exists_eq_add_of_le' (show 1 ≤ y by omega)
  simp only [Gregorian.weekday, Nat.add_right_comm n 1]
  by_cases hm3 : m < 3
  · rw [dayNumber_of_lt_three hm hm3, dayNumber_of_lt_three hm hm3]
    unfold leapDays
    omega
  · have hlate := dayNumber_of_three_le (Nat.le_of_not_lt hm3) hm12 (n + 1900) d
    have hearly := dayNumber_of_three_le (Nat.le_of_not_lt hm3) hm12 (n + 400) d
    unfold leapDays at hlate hearly
    omega

/-- In January and February of year 0 the decrement wraps. -/
theorem weekday_zero {d m : ℕ} (hm : 1 ≤ m) (hm3 : m < 3) (hd31 : d ≤ 31) :
    weekday d m 0 ≠ Gregorian.weekday 2000 m d := by
  have hnumber := dayNumber_of_lt_three hm hm3 1999 d
  rw [Gregorian.weekday, hnumber]
  have hday : u32 (d + 0) = d := u32_of_lt (by omega)
  simp only [weekday, if_pos hm3, hday]
  obtain rfl | rfl : m = 1 ∨ m = 2 := by omega
  · interval_cases d <;> decide
  · interval_cases d <;> decide

/-- **The reported weekday is that of the reported date exactly from 2000-03-01
on.** -/
theorem rtcRead_weekday_iff {chip : Chip} {n fuel : ℕ} {r : RTCRegisters} {t : ClockDate}
    (hdate : EncodesDate r t) (hchip : Holds chip n r) (hfuel : n < fuel) :
    (∃ d, rtcRead chip fuel = some d ∧ d.weekday = Gregorian.weekday d.year d.month d.day) ↔
      2000 ≤ t.year ∧ (t.year = 2000 → 3 ≤ t.month) := by
  obtain ⟨hyear, hmonth, hday, hweekday⟩ := decode_date hdate
  have hd := t.day_mem.1
  have hd31 := t.day_le
  obtain ⟨hm, hm12⟩ := t.month_mem
  obtain ⟨hfrom, hto⟩ := t.year_mem
  have hsmall : weekday t.day t.month (t.year % 100) < 2 ^ 8 :=
    (Nat.mod_lt _ (by decide : 0 < 7)).trans (by decide)
  have hreported : (∃ d, rtcRead chip fuel = some d ∧
      d.weekday = Gregorian.weekday d.year d.month d.day) ↔
        weekday t.day t.month (t.year % 100) = Gregorian.weekday t.year t.month t.day := by
    rw [rtcRead_of_holds hchip hfuel]
    simp only [Option.some.injEq, exists_eq_left', hyear, hmonth, hday, hweekday]
    rw [u8, Nat.mod_eq_of_lt hsmall]
  rw [hreported]
  by_cases hcentury : 2000 ≤ t.year
  · have htwo : t.year % 100 + 2000 = t.year := by omega
    by_cases hwrap : 3 ≤ t.month ∨ 1 ≤ t.year % 100
    · -- five periods between the two digits and the year, one of them in `weekday_eq`
      have hshift : Gregorian.weekday (t.year % 100 + 400 + 400 * 4) t.month t.day =
          Gregorian.weekday (t.year % 100 + 400) t.month t.day :=
        weekday_add_mul hm hm12 (by omega) t.day 4
      rw [weekday_eq hd hd31 hm hm12 (by omega) hwrap, ← hshift, Nat.add_assoc, htwo]
      exact ⟨fun _ => ⟨hcentury, fun h2000 => by omega⟩, fun _ => rfl⟩
    · obtain ⟨hm3, hzero⟩ := not_or.mp hwrap
      have h2000 : t.year = 2000 := by omega
      rw [h2000]
      refine ⟨fun heq => absurd heq (weekday_zero hm (by omega) hd31), fun hmarch => ?_⟩
      exact absurd (hmarch.2 rfl) hm3
  · have hnineteen : t.year % 100 + 1900 = t.year := by omega
    have hwrong := weekday_add_1900 (y := t.year % 100) (by omega) (by omega) hm hm12 t.day
    rw [hnineteen] at hwrong
    rw [weekday_eq hd hd31 hm hm12 (by omega) (.inr (by omega))]
    exact ⟨fun heq => absurd heq.symm hwrong, fun hlate => absurd hlate.1 hcentury⟩

/-- The last day of April 2022 in BCD, at any time of the day. -/
def aprilEnd : ClockDate where
  year := 2022
  month := 4
  day := 30
  month_mem := by decide
  day_mem := by decide
  year_mem := by decide

theorem rtcRead_weekday_iff_aprilEnd :
    EncodesDate ⟨0x22, 0x04, 0x30, 0x99, 0xFF, 0, 0x02⟩ aprilEnd ∧
      ∃ d, rtcRead (steady ⟨0x22, 0x04, 0x30, 0x99, 0xFF, 0, 0x02⟩) 1 = some d ∧
        d.weekday = Gregorian.weekday d.year d.month d.day :=
  have hdate : EncodesDate ⟨0x22, 0x04, 0x30, 0x99, 0xFF, 0, 0x02⟩ aprilEnd :=
    ⟨by decide, by decide, by decide⟩
  ⟨hdate, (rtcRead_weekday_iff hdate (steady_holds (by decide)) (by decide)).mpr
    ⟨by decide, fun h => absurd h (by decide)⟩⟩

/-- The last day of 1999 was a Friday; the code reports a Thursday. -/
theorem newYearsEve_reported_thursday :
    EncodesDate (encode 0x02 newYearsEve) newYearsEve.toClockDate ∧
      Gregorian.weekday 1999 12 31 = 5 ∧
      rtcRead (steady (encode 0x02 newYearsEve)) 1 = some ⟨1999, 12, 31, 23, 59, 59, 4⟩ ∧
      ¬ ∃ d, rtcRead (steady (encode 0x02 newYearsEve)) 1 = some d ∧
        d.weekday = Gregorian.weekday d.year d.month d.day := by
  have hfriday : Gregorian.weekday 1999 12 31 = 5 := by
    have hnumber : dayNumber 1999 12 31 + 306 =
        365 * 1999 + leapDays 1999 + (153 * (12 - 3) + 2) / 5 + 31 :=
      dayNumber_of_three_le (by decide) (by decide) 1998 31
    have hleap : leapDays 1999 = 484 := rfl
    rw [hleap] at hnumber
    rw [Gregorian.weekday, Nat.eq_sub_of_add_eq hnumber]
  have hread : rtcRead (steady (encode 0x02 newYearsEve)) 1 =
      some ⟨1999, 12, 31, 23, 59, 59, 4⟩ := by decide
  refine ⟨⟨rfl, rfl, rfl⟩, hfriday, hread, ?_⟩
  rintro ⟨d, hd, hweekday⟩
  rw [hread] at hd
  rw [← Option.some.inj hd] at hweekday
  exact absurd (hweekday.trans hfriday) (by decide)

end OsdevX64.Cmos
