import Mathlib.Algebra.BigOperators.Intervals
import Mathlib.Algebra.Order.Group.Nat
import Mathlib.Tactic.IntervalCases

/-!
# The Gregorian calendar

Days are counted from the Sunday before 0001-01-01, so a weekday is a day number
modulo 7 with 0 for Sunday.  The count is the plain one: the days of the years
before, the days of the months before, the day of the month.

`daysBeforeYear_succ` closes the sum over the years, `dayNumber_of_three_le`
counts a date from March on by the leap days up to the end of its own year, and
`weekday_add_mul` is the period of the calendar: 400 years are whole weeks.
-/

namespace Gregorian

/-- A leap year: divisible by 4, and not by 100 unless by 400. -/
def IsLeap (y : ℕ) : Prop := 4 ∣ y ∧ (¬ 100 ∣ y ∨ 400 ∣ y)

instance (y : ℕ) : Decidable (IsLeap y) :=
  inferInstanceAs (Decidable (4 ∣ y ∧ (¬ 100 ∣ y ∨ 400 ∣ y)))

/-- The days of a year. -/
def daysInYear (y : ℕ) : ℕ := if IsLeap y then 366 else 365

/-- The days of a month of a year. -/
def daysInMonth (y m : ℕ) : ℕ :=
  if m = 2 then (if IsLeap y then 29 else 28)
  else if m = 4 ∨ m = 6 ∨ m = 9 ∨ m = 11 then 30
  else 31

/-- The days from 0001-01-01 to the first of January of a year. -/
def daysBeforeYear (y : ℕ) : ℕ := ∑ k ∈ Finset.Ico 1 y, daysInYear k

/-- The days of a year before a month. -/
def daysBeforeMonth (y m : ℕ) : ℕ := ∑ k ∈ Finset.Ico 1 m, daysInMonth y k

/-- The number of a date, counted from the Sunday before 0001-01-01. -/
def dayNumber (y m d : ℕ) : ℕ := daysBeforeYear y + daysBeforeMonth y m + d

/-- The weekday of a date, 0 for Sunday. -/
def weekday (y m d : ℕ) : ℕ := dayNumber y m d % 7

/-- A calendar date. -/
structure Date where
  year : ℕ
  month : ℕ
  day : ℕ
  month_mem : 1 ≤ month ∧ month ≤ 12
  day_mem : 1 ≤ day ∧ day ≤ daysInMonth year month

theorem daysInMonth_le (y m : ℕ) : daysInMonth y m ≤ 31 := by
  unfold daysInMonth
  split_ifs <;> omega

/-- A day of a month is at most the 31st. -/
theorem Date.day_le (t : Date) : t.day ≤ 31 := t.day_mem.2.trans (daysInMonth_le _ _)

/-! ## Counting years -/

/-- The leap days of the years up to `n`. -/
def leapDays (n : ℕ) : ℕ := n / 4 - n / 100 + n / 400

theorem leapDays_succ (n : ℕ) :
    leapDays (n + 1) = leapDays n + if IsLeap (n + 1) then 1 else 0 := by
  have h100 : 400 ∣ n + 1 → 100 ∣ n + 1 := (by decide : 100 ∣ 400).trans
  have h4 : 100 ∣ n + 1 → 4 ∣ n + 1 := (by decide : 4 ∣ 100).trans
  have hle : n / 100 ≤ n / 4 := Nat.div_le_div_left (by decide) (by decide)
  unfold leapDays
  -- each quotient steps where its divisor divides the new year
  rw [Nat.succ_div, Nat.succ_div, Nat.succ_div]
  by_cases hcentury : 100 ∣ n + 1
  · have hyear := h4 hcentury
    by_cases hperiod : 400 ∣ n + 1
    · have hleap : IsLeap (n + 1) := ⟨hyear, .inr hperiod⟩
      rw [if_pos hyear, if_pos hcentury, if_pos hperiod, if_pos hleap]
      omega
    · have hcommon : ¬ IsLeap (n + 1) := fun h =>
        h.2.elim (fun hnot => hnot hcentury) hperiod
      rw [if_pos hyear, if_pos hcentury, if_neg hperiod, if_neg hcommon]
      omega
  · have hperiod := mt h100 hcentury
    by_cases hyear : 4 ∣ n + 1
    · have hleap : IsLeap (n + 1) := ⟨hyear, .inl hcentury⟩
      rw [if_pos hyear, if_neg hcentury, if_neg hperiod, if_pos hleap]
      omega
    · have hcommon : ¬ IsLeap (n + 1) := fun h => hyear h.1
      rw [if_neg hyear, if_neg hcentury, if_neg hperiod, if_neg hcommon]
      omega

/-- **The years before a year**: 365 days each, and their leap days. -/
theorem daysBeforeYear_succ (n : ℕ) : daysBeforeYear (n + 1) = 365 * n + leapDays n := by
  induction n with
  | zero => rfl
  | succ n ih =>
      have hyear : daysBeforeYear (n + 1 + 1) = daysBeforeYear (n + 1) + daysInYear (n + 1) :=
        Finset.sum_Ico_succ_top (by omega) _
      rw [hyear, ih, leapDays_succ, daysInYear]
      split_ifs <;> omega

theorem leapDays_add_400 (n : ℕ) : leapDays (n + 400) = leapDays n + 97 := by
  unfold leapDays
  omega

/-! ## Counting days -/

/-- January has 31 days in every year. -/
theorem dayNumber_of_lt_three {m : ℕ} (hm : 1 ≤ m) (hm3 : m < 3) (n d : ℕ) :
    dayNumber (n + 1) m d = 365 * n + leapDays n + 31 * (m - 1) + d := by
  have hmonth : daysBeforeMonth (n + 1) m = 31 * (m - 1) := by
    obtain rfl | rfl : m = 1 ∨ m = 2 := by omega
    · rfl
    · rfl
  rw [dayNumber, daysBeforeYear_succ, hmonth]

/-- The months from March on follow each other after 31, 30, 31, 30, 31 days. -/
theorem daysInMonth_of_three_le (y : ℕ) {m : ℕ} (hm : 3 ≤ m) (hm11 : m ≤ 11) :
    (153 * (m - 3) + 2) / 5 + daysInMonth y m = (153 * (m + 1 - 3) + 2) / 5 := by
  interval_cases m <;> rfl

theorem daysBeforeMonth_of_three_le (y : ℕ) {m : ℕ} (hm : 3 ≤ m) (hm12 : m ≤ 12) :
    daysBeforeMonth y m = 59 + (if IsLeap y then 1 else 0) + (153 * (m - 3) + 2) / 5 := by
  induction m, hm using Nat.le_induction with
  | base =>
      rw [daysBeforeMonth, Finset.sum_Ico_succ_top (by omega), Finset.sum_Ico_succ_top (by omega)]
      by_cases hleap : IsLeap y <;> simp [daysInMonth, hleap]
  | succ m hm ih =>
      have hmonth : daysBeforeMonth y (m + 1) = daysBeforeMonth y m + daysInMonth y m :=
        Finset.sum_Ico_succ_top (by omega) _
      rw [hmonth, ih (by omega), Nat.add_assoc, daysInMonth_of_three_le y hm (by omega)]

/-- **From March on** the leap day of the year itself has passed; 306 days are
left from the first of March to the end of the year. -/
theorem dayNumber_of_three_le {m : ℕ} (hm : 3 ≤ m) (hm12 : m ≤ 12) (n d : ℕ) :
    dayNumber (n + 1) m d + 306 =
      365 * (n + 1) + leapDays (n + 1) + (153 * (m - 3) + 2) / 5 + d := by
  rw [dayNumber, daysBeforeYear_succ, daysBeforeMonth_of_three_le (n + 1) hm hm12, leapDays_succ]
  omega

/-- **The period of the calendar**: 400 years are 146097 days. -/
theorem dayNumber_add_400 {m : ℕ} (hm : 1 ≤ m) (hm12 : m ≤ 12) {y : ℕ} (hy : 1 ≤ y) (d : ℕ) :
    dayNumber (y + 400) m d = dayNumber y m d + 146097 := by
  obtain ⟨n, rfl⟩ := Nat.exists_eq_add_of_le' hy
  rw [Nat.add_right_comm]
  by_cases hm3 : m < 3
  · rw [dayNumber_of_lt_three hm hm3, dayNumber_of_lt_three hm hm3, leapDays_add_400]
    omega
  · have hfar := dayNumber_of_three_le (Nat.le_of_not_lt hm3) hm12 (n + 400) d
    have hnear := dayNumber_of_three_le (Nat.le_of_not_lt hm3) hm12 n d
    have hleap : leapDays (n + 400 + 1) = leapDays (n + 1) + 97 := by
      rw [Nat.add_right_comm, leapDays_add_400]
    omega

/-- Whole periods are whole weeks. -/
theorem weekday_add_mul {m : ℕ} (hm : 1 ≤ m) (hm12 : m ≤ 12) {y : ℕ} (hy : 1 ≤ y) (d k : ℕ) :
    weekday (y + 400 * k) m d = weekday y m d := by
  induction k with
  | zero => rfl
  | succ k ih =>
      have hperiod := dayNumber_add_400 hm hm12 (y := y + 400 * k) (by omega) d
      rw [Nat.mul_succ, ← Nat.add_assoc, weekday, hperiod, ← ih, weekday]
      omega

/-! ## The next day -/

theorem daysInMonth_pos (y m : ℕ) : 1 ≤ daysInMonth y m := by
  unfold daysInMonth
  split_ifs <;> omega

/-- The date of the next day. -/
def Date.next (t : Date) : Date :=
  if hday : t.day < daysInMonth t.year t.month then
    ⟨t.year, t.month, t.day + 1, t.month_mem, ⟨Nat.le_add_left 1 _, hday⟩⟩
  else if hmonth : t.month < 12 then
    ⟨t.year, t.month + 1, 1, ⟨Nat.le_add_left 1 _, hmonth⟩, ⟨Nat.le_refl 1, daysInMonth_pos _ _⟩⟩
  else ⟨t.year + 1, 1, 1, by decide, ⟨Nat.le_refl 1, daysInMonth_pos _ _⟩⟩

theorem Date.year_le_next (t : Date) : t.year ≤ t.next.year := by
  unfold Date.next
  split_ifs
  · exact Nat.le_refl _
  · exact Nat.le_refl _
  · exact Nat.le_succ _

/-- A year is as long as its months. -/
theorem daysInYear_eq (y : ℕ) : daysInYear y = daysBeforeMonth y 12 + daysInMonth y 12 := by
  have hdecember : daysInMonth y 12 = 31 := rfl
  rw [daysBeforeMonth_of_three_le y (by decide) (by decide), hdecember, daysInYear]
  split_ifs <;> rfl

/-- **Dates are numbered without a gap**, across the ends of months and years. -/
theorem Date.dayNumber_next {t : Date} (hyear : 1 ≤ t.year) :
    dayNumber t.next.year t.next.month t.next.day = dayNumber t.year t.month t.day + 1 := by
  have hlast := t.day_mem.2
  unfold next
  split_ifs with hday hmonth
  · rfl
  · have hnext : daysBeforeMonth t.year (t.month + 1) =
        daysBeforeMonth t.year t.month + daysInMonth t.year t.month :=
      Finset.sum_Ico_succ_top t.month_mem.1 _
    unfold dayNumber
    dsimp only
    omega
  · have hdecember : t.month = 12 := Nat.le_antisymm t.month_mem.2 (Nat.le_of_not_lt hmonth)
    have hnext : daysBeforeYear (t.year + 1) = daysBeforeYear t.year + daysInYear t.year :=
      Finset.sum_Ico_succ_top hyear _
    have hlength := daysInYear_eq t.year
    have hjanuary : daysBeforeMonth (t.year + 1) 1 = 0 := rfl
    rw [hdecember] at hlast hday
    unfold dayNumber
    dsimp only
    rw [hdecember]
    omega

end Gregorian
