import Mathlib.Data.List.Basic
import Mathlib.Data.List.GetD
import Mathlib.Data.Nat.Basic

/-!
# Laying out a stream in rows

The reference for anything that shows a stream of cells in lines of fixed width:
cells go to the end of the last row, and a new row starts on demand and as soon
as a row is full.  Nothing is ever dropped here; a display with `height` lines
shows the rows from `count - height` on.

The last row is kept apart from the finished ones, so that it exists by
construction, and carries the proof that it is not full.
-/

/-- Rows of cells, the last of which has room for one more cell. -/
structure RowLayout (α : Type*) (width : ℕ) where
  closed : List (List α)
  last : List α
  last_lt : last.length < width

namespace RowLayout

variable {α : Type*} {width : ℕ}

/-- One empty row. -/
def empty (hwidth : 0 < width) : RowLayout α width := ⟨[], [], hwidth⟩

/-- All rows, the last one included. -/
def rows (r : RowLayout α width) : List (List α) := r.closed ++ [r.last]

/-- Start a new row. -/
def newRow (r : RowLayout α width) : RowLayout α width :=
  ⟨r.rows, [], Nat.zero_lt_of_lt r.last_lt⟩

/-- Append a cell to the last row; a row that is full then is closed. -/
def put (r : RowLayout α width) (a : α) : RowLayout α width :=
  if h : r.last.length + 1 = width then
    ⟨r.closed ++ [r.last ++ [a]], [], Nat.zero_lt_of_lt r.last_lt⟩
  else
    ⟨r.closed, r.last ++ [a], by
      have hlt := r.last_lt
      rw [List.length_append, List.length_singleton]
      omega⟩

/-- Take the last cell of the last row away. -/
def drop (r : RowLayout α width) : RowLayout α width :=
  ⟨r.closed, r.last.dropLast, by
    rw [List.length_dropLast]
    exact Nat.lt_of_le_of_lt (Nat.sub_le _ 1) r.last_lt⟩

/-- The rows a display of `height` lines shows. -/
def window (r : RowLayout α width) (height : ℕ) : List (List α) :=
  r.rows.drop (r.rows.length - height)

/-- The cell in column `j` of row `i`, counted from the first row. -/
def cell? (r : RowLayout α width) (i j : ℕ) : Option α := (r.rows.getD i [])[j]?

@[simp] theorem length_rows (r : RowLayout α width) : r.rows.length = r.closed.length + 1 := by
  simp [rows]

/-- Line `i` of a display shows row `count - height + i`. -/
theorem getD_window (r : RowLayout α width) (height i : ℕ) :
    (r.window height).getD i [] = r.rows.getD (r.rows.length - height + i) [] := by
  rw [List.getD_eq_getElem?_getD, List.getD_eq_getElem?_getD, window, List.getElem?_drop]

/-! ## The operations, cell by cell -/

/-- An empty row at the end is not seen. -/
theorem getD_append_empty (rows : List (List α)) (i : ℕ) :
    (rows ++ [[]]).getD i [] = rows.getD i [] := by
  by_cases hi : i < rows.length
  · rw [List.getD_append _ _ _ _ hi]
  · rw [List.getD_append_right _ _ _ _ (by omega), List.getD_eq_default rows _ (by omega)]
    cases i - rows.length with
    | zero => rfl
    | succ k => rfl

/-- A longer last row shows one more cell. -/
theorem getElem?_append_cell (closed : List (List α)) (last : List α) (a : α) (i j : ℕ) :
    ((closed ++ [last ++ [a]]).getD i [])[j]? =
      if i = closed.length ∧ j = last.length then some a
      else ((closed ++ [last]).getD i [])[j]? := by
  rcases lt_trichotomy i closed.length with hi | rfl | hi
  · rw [List.getD_append _ _ _ _ hi, List.getD_append _ _ _ _ hi, if_neg (by omega)]
  · rw [List.getD_append_right _ _ _ _ le_rfl, List.getD_append_right _ _ _ _ le_rfl]
    simp only [Nat.sub_self, List.getD_cons_zero, true_and]
    rcases lt_trichotomy j last.length with hj | rfl | hj
    · rw [if_neg (by omega), List.getElem?_append_left hj]
    · rw [if_pos rfl, List.getElem?_concat_length]
    · rw [if_neg (by omega), List.getElem?_eq_none (by simpa using Nat.succ_le_of_lt hj),
        List.getElem?_eq_none (by omega)]
  · have hlen : closed.length + 1 ≤ i := hi
    rw [List.getD_eq_default _ _ (by simpa using hlen),
      List.getD_eq_default _ _ (by simpa using hlen), if_neg (by omega)]

/-- A new row shows nothing new. -/
theorem cell?_newRow (r : RowLayout α width) (i j : ℕ) : r.newRow.cell? i j = r.cell? i j := by
  unfold cell?
  rw [show r.newRow.rows = r.rows ++ [[]] from rfl, getD_append_empty]

/-- **A put shows its cell** at the end of the last row. -/
theorem cell?_put (r : RowLayout α width) (a : α) (i j : ℕ) :
    (r.put a).cell? i j =
      if i = r.closed.length ∧ j = r.last.length then some a else r.cell? i j := by
  rw [cell?, cell?, rows, rows, ← getElem?_append_cell]
  unfold put
  split_ifs with hfull
  · dsimp only
    rw [getD_append_empty]
  · rfl

/-- A shorter last row shows one cell less. -/
theorem cell?_drop {r : RowLayout α width} (h : r.last ≠ []) (i j : ℕ) :
    r.drop.cell? i j =
      if i = r.closed.length ∧ j = r.last.length - 1 then none else r.cell? i j := by
  obtain ⟨cells, a, hlast⟩ := (List.eq_nil_or_concat r.last).resolve_left h
  rw [List.concat_eq_append] at hlast
  have hdrop : r.drop.rows = r.closed ++ [cells] := by
    show r.closed ++ [r.last.dropLast] = _
    rw [hlast, List.dropLast_concat]
  have hrows : r.rows = r.closed ++ [cells ++ [a]] := by rw [rows, hlast]
  have hcell := getElem?_append_cell r.closed cells a i j
  rw [cell?, cell?, hdrop, hrows, hcell, hlast, List.length_append, List.length_singleton,
    Nat.add_sub_cancel]
  split_ifs with hij
  · rw [hij.1, List.getD_append_right _ _ _ _ le_rfl, Nat.sub_self, hij.2]
    exact List.getElem?_eq_none (Nat.le_refl _)
  · rfl

/-- A full row is followed by an empty one. -/
theorem put_of_full {r : RowLayout α width} (h : r.last.length + 1 = width) (a : α) :
    (r.put a).last = [] ∧ (r.put a).rows.length = r.rows.length + 1 := by
  unfold put
  rw [dif_pos h]
  simp

theorem put_of_room {r : RowLayout α width} (h : r.last.length + 1 ≠ width) (a : α) :
    (r.put a).last = r.last ++ [a] ∧ (r.put a).rows.length = r.rows.length := by
  unfold put
  rw [dif_neg h]
  simp

/-- Past the last cell of the last row there is nothing. -/
theorem cell?_of_last_nil {r : RowLayout α width} (h : r.last = []) {i : ℕ}
    (hi : r.rows.length ≤ i + 1) (j : ℕ) : r.cell? i j = none := by
  rw [cell?, rows, h, getD_append_empty, List.getD_eq_default _ _ (by
    rw [length_rows] at hi
    omega)]
  rfl

/-- The cells of the last row. -/
theorem cell?_last (r : RowLayout α width) (j : ℕ) :
    r.cell? r.closed.length j = r.last[j]? := by
  rw [cell?, rows, List.getD_append_right _ _ _ _ le_rfl, Nat.sub_self]
  rfl

end RowLayout
