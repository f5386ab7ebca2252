import Mathlib.Data.Nat.Digits.Lemmas

/-!
# Positional numerals

`digits` are the digits of a number as they are written: the most significant
first, none in front of it, and one for zero.  `lowFirst` is the order in which a
loop of divisions finds them (`lowFirst_eq`).  `value` is the number that digits
stand for; it reads `digits` back (`value_digits`).
-/

namespace Positional

variable {base : ℕ}

/-- The digits, the least significant first. -/
def lowFirst (base n : ℕ) : List ℕ := if n = 0 then [0] else Nat.digits base n

/-- The digits, the most significant first. -/
def digits (base n : ℕ) : List ℕ := (lowFirst base n).reverse

/-- The number that digits stand for, with the digits before them worth `v`. -/
def valueFrom (base v : ℕ) (ds : List ℕ) : ℕ := ds.foldl (fun v d => base * v + d) v

/-- The number that digits stand for. -/
def value (base : ℕ) (ds : List ℕ) : ℕ := valueFrom base 0 ds

/-- One division finds the first digit, and the digits of the quotient follow. -/
theorem lowFirst_eq (hbase : 1 < base) (n : ℕ) :
    lowFirst base n = n % base :: if n / base = 0 then [] else lowFirst base (n / base) := by
  unfold lowFirst
  by_cases hn : n = 0
  · rw [if_pos hn, hn, Nat.zero_mod, Nat.zero_div, if_pos rfl]
  · rw [if_neg hn, Nat.digits_def' hbase (Nat.pos_of_ne_zero hn)]
    by_cases hq : n / base = 0
    · rw [if_pos hq, hq, Nat.digits_zero]
    · rw [if_neg hq, if_neg hq]

theorem lt_of_mem_digits (hbase : 1 < base) {n d : ℕ} (hd : d ∈ digits base n) : d < base := by
  have hmem : d ∈ lowFirst base n := List.mem_reverse.mp hd
  unfold lowFirst at hmem
  split_ifs at hmem
  · rw [List.mem_singleton.mp hmem]
    exact Nat.zero_lt_of_lt hbase
  · exact Nat.digits_lt_base hbase hmem

/-- A number below `base ^ k` has at most `k` digits. -/
theorem length_digits_le (hbase : 1 < base) {n k : ℕ} (hn : n < base ^ k) (hk : 0 < k) :
    (digits base n).length ≤ k := by
  rw [digits, List.length_reverse]
  unfold lowFirst
  split_ifs
  · exact hk
  · exact (Nat.digits_length_le_iff hbase n).mpr hn

/-- Zero has a digit only when it is written. -/
theorem length_natDigits_le (base n : ℕ) :
    (Nat.digits base n).length ≤ (digits base n).length := by
  rw [digits, List.length_reverse]
  unfold lowFirst
  split_ifs with hn
  · rw [hn, Nat.digits_zero]
    exact Nat.zero_le _
  · exact Nat.le_refl _

theorem length_natDigits_eq_zero_iff {n : ℕ} : (Nat.digits base n).length = 0 ↔ n = 0 :=
  List.length_eq_zero_iff.trans Nat.digits_eq_nil_iff_eq_zero

theorem valueFrom_append (base v : ℕ) (ds ds' : List ℕ) :
    valueFrom base v (ds ++ ds') = valueFrom base (valueFrom base v ds) ds' := List.foldl_append

/-- Zeros in front count for nothing. -/
theorem value_zeros (base k : ℕ) (ds : List ℕ) :
    value base (List.replicate k 0 ++ ds) = value base ds := by
  have hzeros : valueFrom base 0 (List.replicate k 0) = 0 := by
    induction k with
    | zero => rfl
    | succ k ih => exact ih
  rw [value, valueFrom_append, hzeros, value]

/-- The value does not depend on the order in which the digits are listed. -/
theorem value_reverse (base : ℕ) (ds : List ℕ) : value base ds.reverse = Nat.ofDigits base ds := by
  rw [Nat.ofDigits_eq_foldr, value, valueFrom, List.foldl_reverse]
  simp only [Nat.cast_id, Nat.add_comm]

/-- **The digits of a number stand for it.** -/
theorem value_digits (base n : ℕ) : value base (digits base n) = n := by
  rw [digits, value_reverse]
  unfold lowFirst
  split_ifs with hn
  · rw [hn, Nat.ofDigits_singleton]
  · exact Nat.ofDigits_digits base n

/-- Low digits of a number with zeros behind them are digits. -/
theorem lt_of_mem_take_zeros (hbase : 1 < base) {n zeros k d : ℕ}
    (hd : d ∈ (Nat.digits base n).take k ++ List.replicate zeros 0) : d < base := by
  rcases List.mem_append.mp hd with hdigit | hzero
  · exact Nat.digits_lt_base hbase (List.mem_of_mem_take hdigit)
  · rw [List.eq_of_mem_replicate hzero]
    exact Nat.zero_lt_of_lt hbase

/-- Of the low digits of a number, with zeros behind them, `m` stand for its remainder. -/
theorem value_take (hbase : 1 < base) (n zeros : ℕ) {k m : ℕ} (hm : m ≤ k) :
    value base (((Nat.digits base n).take k ++ List.replicate zeros 0).take m).reverse =
      n % base ^ m := by
  have hpos : 0 < base := Nat.zero_lt_of_lt hbase
  rw [value_reverse,
    ← Nat.ofDigits_mod_pow_eq_ofDigits_take m hpos _ fun d => lt_of_mem_take_zeros hbase,
    Nat.ofDigits_append_replicate_zero, ← Nat.self_mod_pow_eq_ofDigits_take k n hbase,
    Nat.mod_mod_of_dvd _ (Nat.pow_dvd_pow base hm)]

/-! ## At least so many digits -/

/-- The digits of a number with zeros in front of them, `p` digits at least.  Zero has
no digit of its own. -/
def atLeast (base p n : ℕ) : List ℕ :=
  List.replicate (p - (Nat.digits base n).length) 0 ++ (Nat.digits base n).reverse

theorem length_atLeast (base p n : ℕ) :
    (atLeast base p n).length = max p (Nat.digits base n).length := by
  rw [atLeast, List.length_append, List.length_replicate, List.length_reverse]
  omega

/-- They still stand for the number. -/
theorem value_atLeast (base p n : ℕ) : value base (atLeast base p n) = n := by
  rw [atLeast, value_zeros, value_reverse, Nat.ofDigits_digits]

end Positional
