import Mathlib.Data.List.Basic

/-!
# Removing rows by pulling down

The rows of a stack, the uppermost first, are removed in place: a marked row is
overwritten by the row above it, that one by the row above it and so on
(`pullDown`).  Nothing is above the first row, so it keeps its content.  A scan
from the top that pulls down at every marked row is `compact`.

**The scan removes the marked rows, and leaves a copy of the first row for each of
them** (`compact_eq`).  It does not matter whether the first row is marked itself.
-/

namespace Compaction

variable {α : Type*}

/-- Overwrite row `k` by the row above it, and so on up to the first row, which
stays. -/
def pullDown (k : ℕ) (rows : List α) : List α := rows.take 1 ++ rows.eraseIdx k

/-- One step of the scan. -/
def visit (marked : α → Bool) (rows : List α) (k : ℕ) : List α :=
  if rows[k]?.any marked then pullDown k rows else rows

/-- Pull down at every marked row, from the top on. -/
def compact (marked : α → Bool) (rows : List α) : List α :=
  (List.range rows.length).foldl (visit marked) rows

theorem pullDown_cons (k : ℕ) (top : α) (rows : List α) :
    pullDown k (top :: rows) = top :: (top :: rows).eraseIdx k := rfl

/-- Row `j` after row `k` was overwritten. -/
theorem getElem?_pullDown {k : ℕ} {rows : List α} (hk : k < rows.length) (j : ℕ) :
    (pullDown k rows)[j]? = if 1 ≤ j ∧ j ≤ k then rows[j - 1]? else rows[j]? := by
  cases rows with
  | nil => exact absurd hk (Nat.not_lt_zero k)
  | cons top rows =>
      rw [pullDown_cons]
      cases j with
      | zero =>
          rw [if_neg fun h => Nat.not_succ_le_zero 0 h.1]
          rfl
      | succ j =>
          rw [List.getElem?_cons_succ, List.getElem?_eraseIdx]
          by_cases hj : j < k
          · rw [if_pos hj, if_pos ⟨Nat.le_add_left 1 j, hj⟩]
            rfl
          · rw [if_neg hj, if_neg fun h => hj h.2]

/-- A row below the visited one is not touched. -/
theorem getElem?_visit (marked : α → Bool) (rows : List α) {k j : ℕ} (hj : k < j) :
    (visit marked rows k)[j]? = rows[j]? := by
  unfold visit
  split_ifs with hmarked
  · have hk : k < rows.length := by
      by_contra hout
      rw [List.getElem?_eq_none (Nat.le_of_not_lt hout)] at hmarked
      exact Bool.false_ne_true hmarked
    rw [getElem?_pullDown hk, if_neg fun h => Nat.not_le_of_lt hj h.2]
  · rfl

/-- **A row that was not visited yet is as it was.** -/
theorem getElem?_foldl_visit (marked : α → Bool) (rows : List α) {k j : ℕ} (hj : k ≤ j) :
    ((List.range k).foldl (visit marked) rows)[j]? = rows[j]? := by
  induction k with
  | zero => rfl
  | succ k ih =>
      rw [List.range_succ, List.foldl_append, List.foldl_cons, List.foldl_nil,
        getElem?_visit marked _ hj, ih (Nat.le_of_succ_le hj)]

/-- The first row stays. -/
theorem take_one_visit (marked : α → Bool) (rows : List α) (k : ℕ) :
    (visit marked rows k).take 1 = rows.take 1 := by
  unfold visit
  split_ifs
  · cases rows with
    | nil => rfl
    | cons top rows => rfl
  · rfl

theorem take_one_foldl (marked : α → Bool) (rows : List α) (ks : List ℕ) :
    (ks.foldl (visit marked) rows).take 1 = rows.take 1 := by
  induction ks generalizing rows with
  | nil => rfl
  | cons k ks ih => rw [List.foldl_cons, ih, take_one_visit]

/-- After the rows above row `k` were visited they are compacted, and the others
are as they were. -/
theorem foldl_visit (marked : α → Bool) (top : α) (rows : List α) {k : ℕ}
    (hk : k ≤ (top :: rows).length) :
    (List.range k).foldl (visit marked) (top :: rows) =
      List.replicate (((top :: rows).take k).countP marked) top ++
        ((top :: rows).take k).filter (fun row => !marked row) ++ (top :: rows).drop k := by
  induction k with
  | zero => rfl
  | succ k ih =>
      have hlt : k < (top :: rows).length := hk
      have hfirst := take_one_foldl marked (top :: rows) (List.range k)
      have hrow := getElem?_foldl_visit marked (top :: rows) (Nat.le_refl k)
      rw [List.range_succ, List.foldl_append]
      rw [ih (Nat.le_of_lt hlt)] at hfirst hrow ⊢
      generalize hall : top :: rows = all at hlt hfirst hrow
      rw [List.getElem?_eq_getElem hlt] at hrow
      have hsplit : all.take (k + 1) = all.take k ++ [all[k]] :=
        List.take_succ_eq_append_getElem hlt
      have hdrop : all.drop k = all[k] :: all.drop (k + 1) := List.drop_eq_getElem_cons hlt
      have hcount := List.length_eq_countP_add_countP marked (l := all.take k)
      generalize hkept : (all.take k).filter (fun row => !marked row) = kept at hfirst hrow ⊢
      generalize hn : (all.take k).countP marked = n at hcount hfirst hrow ⊢
      -- the part in front of row `k` has `k` rows
      have hlength : (List.replicate n top ++ kept).length = k := by
        have hnot : kept.length = (all.take k).countP fun row => decide ¬ marked row := by
          rw [← hkept, ← List.countP_eq_length_filter]
          simp
        rw [List.length_take, Nat.min_eq_left (Nat.le_of_lt hlt)] at hcount
        rw [List.length_append, List.length_replicate, hnot]
        exact hcount.symm
      rw [List.foldl_cons, List.foldl_nil, visit, hrow, Option.any_some, hsplit,
        List.countP_append, List.filter_append, hn, hkept]
      cases hmarked : marked all[k] with
      | false =>
          have hlast : [all[k]].countP marked = 0 ∧
              [all[k]].filter (fun row => !marked row) = [all[k]] := by
            simp [hmarked]
          rw [if_neg Bool.false_ne_true, hlast.1, hlast.2, hdrop]
          simp only [List.append_assoc, List.singleton_append, Nat.add_zero]
      | true =>
          have hlast : [all[k]].countP marked = 1 ∧
              [all[k]].filter (fun row => !marked row) = [] := by
            simp [hmarked]
          have htop : all.take 1 = [top] := by rw [← hall]; rfl
          have herase : (List.replicate n top ++ kept ++ all.drop k).eraseIdx k =
              List.replicate n top ++ kept ++ all.drop (k + 1) := by
            rw [List.eraseIdx_append_of_length_le (Nat.le_of_eq hlength), hlength, Nat.sub_self,
              hdrop]
            rfl
          rw [if_pos rfl, pullDown, hfirst, htop, herase, hlast.1, hlast.2, List.append_nil,
            List.replicate_succ]
          rfl

/-- **The scan removes the marked rows** and leaves as many copies of the first row
in their place. -/
theorem compact_eq (marked : α → Bool) (top : α) (rows : List α) :
    compact marked (top :: rows) =
      List.replicate ((top :: rows).countP marked) top ++
        (top :: rows).filter fun row => !marked row := by
  have hall := foldl_visit marked top rows (Nat.le_refl (top :: rows).length)
  rw [List.take_length, List.drop_length, List.append_nil] at hall
  exact hall

end Compaction
