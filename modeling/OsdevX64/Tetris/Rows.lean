import OsdevX64.Lib.Compaction
import OsdevX64.Tetris.Invariant

/-!
# Full rows

`_field_rows` removes full rows in place and from the top on: `_field_shift` copies
every row above the full one down by one.  Seen as a list of rows a shift is
`Compaction.pullDown` and the scan is `Compaction.compact`, so the field ends as the
rows that are not full below **as many copies of the top row as rows were full**.
The source never blanks the top row.

So the rows are cleared exactly where none is full or the top row is empty
(`rows_cleared_iff`).  The score is right in any case.
-/

namespace OsdevX64.TetrisModule

open Compaction

/-! ## The reference -/

/-- Row `y` of a field. -/
def rowOf (cell : ℤ → ℤ) (y : ℕ) : List ℤ :=
  (List.range 10).map fun (x : ℕ) => cell (cellIndex x y)

/-- The rows of a field, the uppermost first. -/
def rowsOf (cell : ℤ → ℤ) : List (List ℤ) := (List.range 20).map (rowOf cell)

/-- Every cell of the row is occupied. -/
def isFull (row : List ℤ) : Bool := row.all fun v => v ≠ 0

/-- A row of empty cells. -/
def emptyRow : List ℤ := List.replicate 10 0

/-- The number of full rows. -/
def fullRows (rows : List (List ℤ)) : ℕ := rows.countP isFull

/-- The number of occupied cells. -/
def occupied (rows : List (List ℤ)) : ℕ := (rows.map fun row => row.countP fun v => v ≠ 0).sum

/-- Take the full rows out and put empty ones on top. -/
def cleared (rows : List (List ℤ)) : List (List ℤ) :=
  List.replicate (fullRows rows) emptyRow ++ rows.filter fun row => !isFull row

/-- **The full rows are gone**, and the score is 100 for each of them. -/
structure RowsCleared (before after : List (List ℤ)) (score : ℤ) : Prop where
  field : after = cleared before
  score : score = 100 * fullRows before
  none_full : ∀ row ∈ after, isFull row = false
  occupied : occupied after + 10 * fullRows before = occupied before

/-! ## The shift as a list operation -/

theorem cellIndex_inj {x x' : ℕ} {y y' : ℤ} (hx : x < 10) (hx' : x' < 10)
    (h : cellIndex x y = cellIndex x' y') : x = x' ∧ y = y' := by
  unfold cellIndex fieldWidth at h
  omega

/-- The first `n` cells of the row are overwritten. -/
theorem foldl_shiftRow (field : Tracked ℤ ℤ) (y : ℤ) {n : ℕ} (hn : n ≤ 10) {x : ℕ} (hx : x < 10)
    (y' : ℤ) :
    ((List.range n).foldl (fun field (x : ℕ) =>
        field.write (cellIndex x y) (field.cell (cellIndex x (y - 1)))) field).cell
        (cellIndex x y') =
      if y' = y ∧ x < n then field.cell (cellIndex x (y - 1)) else field.cell (cellIndex x y') := by
  induction n generalizing x y' with
  | zero => rw [if_neg fun h => Nat.not_lt_zero x h.2]; rfl
  | succ n ih =>
      have hn10 : n < 10 := hn
      rw [List.range_succ, List.foldl_append, List.foldl_cons, List.foldl_nil, Tracked.cell_write,
        Function.update_apply, ih hn10.le hn10, ih hn10.le hx]
      by_cases hcell : cellIndex x y' = cellIndex n y
      · obtain ⟨rfl, rfl⟩ := cellIndex_inj hx hn10 hcell
        rw [if_pos rfl, if_neg (by omega), if_pos ⟨rfl, Nat.lt_succ_self x⟩]
      · have hne : ¬ (y' = y ∧ x = n) := by
          rintro ⟨rfl, rfl⟩
          exact hcell rfl
        rw [if_neg hcell]
        by_cases hlt : y' = y ∧ x < n
        · rw [if_pos hlt, if_pos ⟨hlt.1, Nat.lt_succ_of_lt hlt.2⟩]
        · rw [if_neg hlt, if_neg (by omega)]

theorem shiftRow_cell (field : Tracked ℤ ℤ) (y y' : ℤ) {x : ℕ} (hx : x < 10) :
    (shiftRow field y).cell (cellIndex x y') =
      if y' = y then field.cell (cellIndex x (y - 1)) else field.cell (cellIndex x y') := by
  have hall := foldl_shiftRow field y (Nat.le_refl 10) hx y'
  simp only [hx, and_true] at hall
  exact hall

/-- A shift copies every row from row 0 on to the row below it, up to row `row`. -/
theorem fieldShift_cell (field : Tracked ℤ ℤ) (row y : ℕ) {x : ℕ} (hx : x < 10) :
    (fieldShift field row).cell (cellIndex x y) =
      if 1 ≤ y ∧ y ≤ row then field.cell (cellIndex x ((y - 1 : ℕ) : ℤ))
      else field.cell (cellIndex x y) := by
  induction row generalizing field with
  | zero => rw [if_neg (by omega)]; rfl
  | succ row ih =>
      have hbelow (k : ℕ) : (shiftRow field ((row : ℤ) + 1)).cell (cellIndex x (k : ℤ)) =
          if k = row + 1 then field.cell (cellIndex x (row : ℤ))
          else field.cell (cellIndex x k) := by
        rw [shiftRow_cell field _ _ hx, Int.add_sub_cancel]
        congr 1
        exact propext ⟨fun h => by omega, fun h => by omega⟩
      rw [fieldShift, ih, hbelow, hbelow]
      split_ifs <;> first
        | rfl
        | omega
        | (congr 2; omega)

theorem getElem?_rowsOf (cell : ℤ → ℤ) (y : ℕ) :
    (rowsOf cell)[y]? = if y < 20 then some (rowOf cell y) else none := by
  unfold rowsOf
  rw [List.getElem?_map]
  split_ifs with hy
  · rw [List.getElem?_range hy]
    rfl
  · rw [List.getElem?_eq_none (by rw [List.length_range]; exact Nat.le_of_not_lt hy)]
    rfl

theorem length_rowsOf (cell : ℤ → ℤ) : (rowsOf cell).length = 20 := by
  rw [rowsOf, List.length_map, List.length_range]

/-- **`_field_shift` pulls the rows down**, and keeps the top row. -/
theorem rowsOf_fieldShift (field : Tracked ℤ ℤ) {row : ℕ} (hrow : row < 20) :
    rowsOf (fieldShift field row).cell = pullDown row (rowsOf field.cell) := by
  have hlength := length_rowsOf field.cell
  apply List.ext_getElem?
  intro y
  rw [getElem?_pullDown (hlength.symm ▸ hrow), getElem?_rowsOf, getElem?_rowsOf, getElem?_rowsOf]
  have hshift : rowOf (fieldShift field row).cell y =
      if 1 ≤ y ∧ y ≤ row then rowOf field.cell (y - 1) else rowOf field.cell y := by
    split_ifs with hy <;> refine List.map_congr_left fun x hx => ?_
    · rw [fieldShift_cell field row y (List.mem_range.mp hx), if_pos hy]
    · rw [fieldShift_cell field row y (List.mem_range.mp hx), if_neg hy]
  rw [hshift]
  split_ifs <;> first
    | rfl
    | omega

/-! ## The scan -/

theorem rowFull_eq (field : Tracked ℤ ℤ) (y : ℕ) :
    rowFull field y = isFull (rowOf field.cell y) := by
  unfold rowFull isFull rowOf
  rw [List.all_map]
  rfl

/-- One step of `_field_rows`, with the score so far. -/
def rowStep (r : Tracked ℤ ℤ × ℤ) (y : ℕ) : Tracked ℤ ℤ × ℤ :=
  if rowFull r.1 y then (fieldShift r.1 y, r.2 + 100) else r

theorem fieldRows_eq (field : Tracked ℤ ℤ) :
    fieldRows field = (List.range 20).foldl rowStep (field, 0) := rfl

/-- The test of the source is the mark of the row. -/
theorem any_rowsOf (cell : ℤ → ℤ) {y : ℕ} (hy : y < 20) :
    (rowsOf cell)[y]?.any isFull = isFull (rowOf cell y) := by
  rw [getElem?_rowsOf, if_pos hy]
  rfl

theorem rowStep_rows (r : Tracked ℤ ℤ × ℤ) {y : ℕ} (hy : y < 20) :
    rowsOf (rowStep r y).1.cell = visit isFull (rowsOf r.1.cell) y := by
  unfold rowStep visit
  rw [any_rowsOf _ hy, ← rowFull_eq]
  split_ifs
  · exact rowsOf_fieldShift r.1 hy
  · rfl

/-- The rows and the score when the rows above row `k` were visited. -/
theorem foldl_rowStep (field : Tracked ℤ ℤ) {k : ℕ} (hk : k ≤ 20) :
    rowsOf ((List.range k).foldl rowStep (field, 0)).1.cell =
        (List.range k).foldl (visit isFull) (rowsOf field.cell) ∧
      ((List.range k).foldl rowStep (field, 0)).2 =
        100 * (((rowsOf field.cell).take k).countP isFull : ℤ) := by
  induction k with
  | zero => exact ⟨rfl, rfl⟩
  | succ k ih =>
      have hlt : k < 20 := hk
      obtain ⟨hrows, hscore⟩ := ih hlt.le
      -- row `k` is still the row of the original field
      have hrow := getElem?_foldl_visit isFull (rowsOf field.cell) (Nat.le_refl k)
      rw [List.range_succ, List.foldl_append, List.foldl_append, List.foldl_cons, List.foldl_nil,
        List.foldl_cons, List.foldl_nil]
      generalize (List.range k).foldl rowStep (field, 0) = r at hrows hscore ⊢
      rw [← hrows] at hrow ⊢
      refine ⟨rowStep_rows r hlt, ?_⟩
      have hfull : rowFull r.1 k = isFull (rowOf field.cell k) := by
        rw [rowFull_eq, ← any_rowsOf _ hlt, hrow, any_rowsOf _ hlt]
      have htake : (rowsOf field.cell).take (k + 1) =
          (rowsOf field.cell).take k ++ [rowOf field.cell k] := by
        rw [List.take_add_one, getElem?_rowsOf, if_pos hlt]
        rfl
      rw [htake, List.countP_append, List.countP_singleton, rowStep, hfull]
      cases isFull (rowOf field.cell k) with
      | false => simpa using hscore
      | true =>
          show r.2 + 100 = _
          rw [hscore, if_pos rfl, Nat.cast_add, mul_add]
          rfl

/-- **`_field_rows` leaves a copy of the top row for every full row**, and counts
the full rows. -/
theorem fieldRows_spec (field : Tracked ℤ ℤ) :
    rowsOf (fieldRows field).1.cell =
        List.replicate (fullRows (rowsOf field.cell)) (rowOf field.cell 0) ++
          (rowsOf field.cell).filter (fun row => !isFull row) ∧
      (fieldRows field).2 = 100 * fullRows (rowsOf field.cell) := by
  obtain ⟨hrows, hscore⟩ := foldl_rowStep field (Nat.le_refl 20)
  have hlength := length_rowsOf field.cell
  rw [fieldRows_eq, hscore, List.take_of_length_le hlength.le]
  refine ⟨?_, rfl⟩
  have hcompact := compact_eq isFull (rowOf field.cell 0)
    ((List.range' 1 19).map (rowOf field.cell))
  have hcons : rowOf field.cell 0 :: (List.range' 1 19).map (rowOf field.cell) =
      rowsOf field.cell := rfl
  rw [hcons, compact, hlength] at hcompact
  rw [hrows, hcompact]
  rfl

/-! ## Counting -/

theorem isFull_emptyRow : isFull emptyRow = false := by decide

/-- Of the occupied cells ten are in each full row. -/
theorem occupied_filter {rows : List (List ℤ)} (hlength : ∀ row ∈ rows, row.length = 10) :
    occupied (rows.filter fun row => !isFull row) + 10 * fullRows rows = occupied rows := by
  induction rows with
  | nil => rfl
  | cons row rows ih =>
      have hrest := ih fun row hrow => hlength row (List.mem_cons_of_mem _ hrow)
      have hten := hlength row List.mem_cons_self
      unfold occupied fullRows at hrest ⊢
      rw [List.filter_cons, List.countP_cons, List.map_cons, List.sum_cons]
      cases hfull : isFull row with
      | false =>
          simp only [Bool.not_false, if_true, List.map_cons, List.sum_cons, Bool.false_eq_true,
            if_false]
          omega
      | true =>
          have hall : row.countP (fun v => v ≠ 0) = row.length :=
            List.countP_eq_length.mpr (List.all_eq_true.mp hfull)
          simp only [Bool.not_true, Bool.false_eq_true, if_false, if_true]
          omega

theorem occupied_emptyRows (n : ℕ) (rows : List (List ℤ)) :
    occupied (List.replicate n emptyRow ++ rows) = occupied rows := by
  induction n with
  | zero => rfl
  | succ n ih =>
      rw [List.replicate_succ, List.cons_append]
      show 0 + occupied (List.replicate n emptyRow ++ rows) = _
      rw [ih, Nat.zero_add]

theorem length_rowOf (cell : ℤ → ℤ) : ∀ row ∈ rowsOf cell, row.length = 10 := by
  intro row hrow
  obtain ⟨y, -, rfl⟩ := List.mem_map.mp hrow
  rw [rowOf, List.length_map, List.length_range]

/-- The reference clears the rows. -/
theorem cleared_spec {rows : List (List ℤ)} (hlength : ∀ row ∈ rows, row.length = 10) :
    RowsCleared rows (cleared rows) (100 * fullRows rows) where
  field := rfl
  score := rfl
  none_full := by
    intro row hrow
    rcases List.mem_append.mp hrow with hrow | hrow
    · rw [List.eq_of_mem_replicate hrow]
      exact isFull_emptyRow
    · simpa using (List.mem_filter.mp hrow).2
  occupied := by
    rw [cleared, occupied_emptyRows, occupied_filter hlength]

/-! ## When rows are cleared -/

/-- No row of the field is full. -/
def NoFullRow (field : Tracked ℤ ℤ) : Prop := ∀ y < 20, rowFull field y = false

/-- The top row is empty. -/
def TopEmpty (field : Tracked ℤ ℤ) : Prop := ∀ x < 10, field.cell (cellIndex (x : ℕ) 0) = 0

theorem fullRows_eq_zero_iff (field : Tracked ℤ ℤ) :
    fullRows (rowsOf field.cell) = 0 ↔ NoFullRow field := by
  unfold fullRows rowsOf
  rw [List.countP_eq_zero]
  constructor
  · intro hnone y hy
    rw [rowFull_eq]
    simpa using hnone _ (List.mem_map_of_mem (List.mem_range.mpr hy))
  · intro hnone row hrow
    obtain ⟨y, hy, rfl⟩ := List.mem_map.mp hrow
    rw [← rowFull_eq, hnone y (List.mem_range.mp hy)]
    exact Bool.false_ne_true

theorem rowOf_eq_emptyRow_iff (field : Tracked ℤ ℤ) :
    rowOf field.cell 0 = emptyRow ↔ TopEmpty field := by
  unfold rowOf emptyRow
  rw [List.eq_replicate_iff]
  constructor
  · rintro ⟨-, hall⟩ x hx
    exact hall _ (List.mem_map_of_mem (List.mem_range.mpr hx))
  · intro htop
    refine ⟨by rw [List.length_map, List.length_range], fun v hv => ?_⟩
    obtain ⟨x, hx, rfl⟩ := List.mem_map.mp hv
    exact htop x (List.mem_range.mp hx)

/-- **Full rows are cleared exactly where there is none or the top row is empty.** -/
theorem rows_cleared_iff (field : Tracked ℤ ℤ) :
    RowsCleared (rowsOf field.cell) (rowsOf (fieldRows field).1.cell) (fieldRows field).2 ↔
      NoFullRow field ∨ TopEmpty field := by
  obtain ⟨hrows, hscore⟩ := fieldRows_spec field
  rw [hrows, hscore, ← fullRows_eq_zero_iff, ← rowOf_eq_emptyRow_iff]
  constructor
  · intro hcleared
    have hcopies := List.append_cancel_right hcleared.field
    exact List.replicate_right_inj'.mp hcopies
  · intro hgood
    have hcopies : List.replicate (fullRows (rowsOf field.cell)) (rowOf field.cell 0) =
        List.replicate (fullRows (rowsOf field.cell)) emptyRow :=
      List.replicate_right_inj'.mpr hgood
    rw [hcopies]
    exact cleared_spec (length_rowOf field.cell)

/-- One cell in the top row and a full row at the bottom. -/
def topAndBottom : Tracked ℤ ℤ := Tracked.fresh fun i => if i = 0 ∨ 190 ≤ i then 1 else 0

/-- **The full row goes and a copy of the top row comes**: the cell of the top row is
there twice. -/
theorem top_row_doubled :
    (rowsOf (fieldRows topAndBottom).1.cell).take 2 =
        List.replicate 2 (rowOf topAndBottom.cell 0) ∧
      ¬ RowsCleared (rowsOf topAndBottom.cell) (rowsOf (fieldRows topAndBottom).1.cell)
        (fieldRows topAndBottom).2 := by
  obtain ⟨hrows, -⟩ := fieldRows_spec topAndBottom
  constructor
  · rw [hrows]
    decide
  · intro hcleared
    exact absurd hcleared.field (by rw [hrows]; decide)

end OsdevX64.TetrisModule
