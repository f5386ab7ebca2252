import OsdevX64.Lib.Accounts
import OsdevX64.Tetris.Rows

/-!
# The accounts of a game

Four accounts are kept over a run of the game: the pieces that have landed, the full
rows that `_field_rows` found, the cells that were occupied when a new piece did not fit
and the field was cleared, and the cells that appear because a shift keeps the top row.

* **Every block is accounted for** (`blocks_accounted`): what is in the field, what went
  with the full rows and what was wiped is what the pieces brought and the top row
  doubled; the score is 100 for each full row, and survives the end of a game.
* **Pieces keep landing** (`pieces_keep_landing`): whatever keys are pressed, 20 ticks of
  the timer land one.

Both are about `play`, in which the bag is filled with arbitrary types.
-/

namespace OsdevX64.TetrisModule

open MachineInt Accounts

/-! ## The accounts -/

/-- The event is a timer tick that lands the falling piece. -/
def lands (g : Tetris) : Event → Bool
  | .key _ => false
  | .timer _ => validPosition g.field (g.cp.drop 1)

/-- The event is a timer tick. -/
def isTick : Event → Bool
  | .key _ => false
  | .timer _ => true

/-- An amount that is due when a piece lands. -/
def onLanding (amount : Tetris → ℕ) (g : Tetris) (e : Event) : ℕ :=
  if lands g e then amount g else 0

/-- The rows of the field with the falling piece in it. -/
def lockedRows (g : Tetris) : List (List ℤ) := rowsOf (toField g.field g.cp).cell

/-- The blocks in the field. -/
def blocks (g : Tetris) : ℕ := occupied (rowsOf g.field.cell)

/-- The occupied cells of a row. -/
def rowCount (row : List ℤ) : ℕ := row.countP fun v => v ≠ 0

/-- The new piece does not fit. -/
def toppedOut (g : Tetris) : Bool := validPosition (lock g).field ⟨4, 0, 0, g.next⟩

/-- Pieces that land. -/
def landed : Tetris → Event → ℕ := onLanding fun _ => 1

/-- Full rows that are found. -/
def rowsFound : Tetris → Event → ℕ := onLanding fun g => fullRows (lockedRows g)

/-- Cells that are wiped because the game is over. -/
def wiped : Tetris → Event → ℕ :=
  onLanding fun g => if toppedOut g then blocks (lock g) else 0

/-- Cells of the top row that are there once more for every full row. -/
def copied : Tetris → Event → ℕ := onLanding fun g =>
  fullRows (lockedRows g) * rowCount (rowOf (toField g.field g.cp).cell 0)

/-! ## Counting cells -/

/-- The first rows are the first cells of the array. -/
theorem flatten_rows (cell : ℤ → ℤ) (n : ℕ) :
    ((List.range n).map (rowOf cell)).flatten =
      (List.range (n * 10)).map fun (i : ℕ) => cell i := by
  induction n with
  | zero => rfl
  | succ n ih =>
      rw [List.range_succ, List.map_append, List.flatten_append, ih, Nat.succ_mul, List.range_add,
        List.map_append, List.map_map, List.map_singleton, List.flatten_singleton]
      rfl

/-- The occupied cells, counted along the array. -/
theorem occupied_rowsOf (cell : ℤ → ℤ) :
    occupied (rowsOf cell) = (List.range 200).countP fun (i : ℕ) => cell i ≠ 0 := by
  rw [occupied, ← List.countP_flatten, rowsOf, flatten_rows, List.countP_map]
  rfl

/-- One more element is counted where one element changes sides. -/
theorem countP_add_one {l : List ℕ} (hl : l.Nodup) {k : ℕ} (hk : k ∈ l) {p q : ℕ → Bool}
    (hp : p k = false) (hq : q k = true) (hrest : ∀ j ∈ l, j ≠ k → q j = p j) :
    l.countP q = l.countP p + 1 := by
  obtain ⟨pre, post, rfl, hpre⟩ := List.eq_append_cons_of_mem hk
  have hpost : k ∉ post := (List.nodup_cons.mp (List.nodup_append.mp hl).2.1).1
  have hsame (part : List ℕ) (hpart : part ⊆ pre ++ k :: post) (hnot : k ∉ part) :
      part.countP q = part.countP p :=
    List.countP_congr fun j hj => by
      rw [hrest j (hpart hj) fun heq => hnot (heq ▸ hj)]
  rw [List.countP_append, List.countP_append, List.countP_cons, List.countP_cons, hp, hq,
    hsame pre (List.subset_append_left _ _) hpre,
    hsame post (fun j hj => List.mem_append_right _ (List.mem_cons_of_mem _ hj)) hpost]
  rfl

/-- Writing a cell that was empty makes one more. -/
theorem occupied_write (field : Tracked ℤ ℤ) {i v : ℤ} (hi : IsIndex i) (hempty : field.cell i = 0)
    (hv : v ≠ 0) :
    occupied (rowsOf (field.write i v).cell) = occupied (rowsOf field.cell) + 1 := by
  obtain ⟨k, rfl⟩ := Int.eq_ofNat_of_zero_le hi.1
  have hk : k ∈ List.range 200 := List.mem_range.mpr (by
    have hlt := hi.2
    omega)
  rw [occupied_rowsOf, occupied_rowsOf]
  refine countP_add_one List.nodup_range hk ?_ ?_ fun j _ hj => ?_
  · rw [hempty, decide_eq_false (not_not_intro rfl)]
  · rw [Tracked.cell_write, Function.update_self, decide_eq_true hv]
  · rw [Tracked.cell_write, Function.update_of_ne (Int.ofNat_inj.not.mpr hj)]

theorem cellIndex_inside_inj {x y x' y' : ℤ} (h : Inside x y) (h' : Inside x' y')
    (heq : cellIndex x y = cellIndex x' y') : x = x' ∧ y = y' := by
  obtain ⟨hx, hx10, -, -⟩ := h
  obtain ⟨hx', hx10', -, -⟩ := h'
  unfold fieldWidth at hx10 hx10'
  unfold cellIndex fieldWidth at heq
  omega

/-- Filling cells that were empty makes as many more. -/
theorem occupied_foldl_write {cells : List (ℤ × ℤ)} (hcells : cells.Nodup) {v : ℤ} (hv : v ≠ 0)
    {field : Tracked ℤ ℤ}
    (hempty : ∀ c ∈ cells, Inside c.1 c.2 ∧ field.cell (cellIndex c.1 c.2) = 0) :
    occupied (rowsOf (cells.foldl (fun field c => field.write (cellIndex c.1 c.2) v) field).cell) =
      occupied (rowsOf field.cell) + cells.length := by
  induction cells generalizing field with
  | nil => exact (Nat.add_zero _).symm
  | cons c cells ih =>
      obtain ⟨hinside, hzero⟩ := hempty c List.mem_cons_self
      obtain ⟨hnot, hnodup⟩ := List.nodup_cons.mp hcells
      rw [List.foldl_cons, ih hnodup, occupied_write field (isIndex_cellIndex hinside) hzero hv,
        List.length_cons, Nat.add_right_comm, Nat.add_assoc]
      intro c' hc'
      obtain ⟨hinside', hzero'⟩ := hempty c' (List.mem_cons_of_mem c hc')
      refine ⟨hinside', ?_⟩
      rw [Tracked.cell_write, Function.update_of_ne, hzero']
      intro heq
      obtain ⟨hx, hy⟩ := cellIndex_inside_inj hinside' hinside heq
      exact hnot (Prod.ext hx hy ▸ hc')

/-- No cell of a piece is there twice. -/
theorem nodup_cells {p : Piece} (hrotation : 0 ≤ p.rotation ∧ p.rotation ≤ 3)
    (htype : IsType p.type) : p.cells.Nodup := by
  have htable : ∀ t ∈ List.range 7, ∀ r ∈ List.range 4,
      (blockLoop (blocksOf t r) 16 0 0).Nodup := by decide
  obtain ⟨ht, ht'⟩ := htype
  obtain ⟨hr, hr'⟩ := hrotation
  have hnodup := htable p.type.toNat (List.mem_range.mpr (by omega)) p.rotation.toNat
    (List.mem_range.mpr (by omega))
  rw [Int.toNat_of_nonneg ht, Int.toNat_of_nonneg hr] at hnodup
  refine hnodup.map fun b b' heq => ?_
  obtain ⟨hx, hy⟩ := Prod.mk.inj heq
  exact Prod.ext (Int.add_left_cancel hx) (Int.add_left_cancel hy)

/-- **A landed piece brings four blocks.** -/
theorem occupied_lockedRows {g : Tetris} (h : Invariant g) :
    occupied (lockedRows g) = blocks g + 4 := by
  have hv : g.cp.type + 1 ≠ 0 := by
    have hlow := h.type.1
    omega
  have hcount := occupied_foldl_write (nodup_cells h.rotation h.type) hv h.fits
  rw [length_cells h.rotation h.type] at hcount
  exact hcount

/-! ## What one event adds -/

theorem occupied_replicate (n : ℕ) (row : List ℤ) (rows : List (List ℤ)) :
    occupied (List.replicate n row ++ rows) = n * rowCount row + occupied rows := by
  rw [occupied, List.map_append, List.sum_append, List.map_replicate,
    List.sum_replicate_nat]
  rfl

/-- What a clearing of rows leaves, with the copies of the top row. -/
theorem occupied_fieldRows (field : Tracked ℤ ℤ) :
    occupied (rowsOf (fieldRows field).1.cell) + 10 * fullRows (rowsOf field.cell) =
      occupied (rowsOf field.cell) +
        fullRows (rowsOf field.cell) * rowCount (rowOf field.cell 0) := by
  have hfilter := occupied_filter (length_rowOf field.cell)
  rw [(fieldRows_spec field).1, occupied_replicate]
  omega

theorem occupied_clearField (field : Tracked ℤ ℤ) :
    occupied (rowsOf (clearField field).cell) = 0 := by
  rw [occupied_rowsOf, List.countP_eq_zero]
  intro i hi
  have hlt := List.mem_range.mp hi
  rw [clearField_cell field ⟨by omega, by omega⟩, decide_eq_false (not_not_intro rfl)]
  exact Bool.false_ne_true

theorem lock_score (g : Tetris) :
    (lock g).score = i32 (g.score + 100 * fullRows (lockedRows g)) := by
  unfold lock
  dsimp only
  rw [(fieldRows_spec _).2]
  rfl

theorem newPiece_score (refill : Bag) (g : Tetris) :
    (newPiece (fillBag refill) g).2.score = g.score := by
  unfold newPiece
  split_ifs <;> rfl

theorem spawn_field (g : Tetris) :
    (spawn g).field = if validPosition g.field g.cp then clearField g.field else g.field := by
  unfold spawn
  split_ifs <;> rfl

theorem spawn_score (g : Tetris) : (spawn g).score = g.score := by
  unfold spawn
  split_ifs <;> rfl

/-- What a landing makes of field, score and height. -/
theorem land_spec {g : Tetris} (h : Invariant g) (b : Bag) :
    (land (fillBag b) g).field =
        (if toppedOut g then clearField (lock g).field else (lock g).field) ∧
      (land (fillBag b) g).score = i32 (g.score + 100 * fullRows (lockedRows g)) ∧
      (land (fillBag b) g).cp.y = 0 := by
  have hbag : BagOk (lock g) := ⟨h.bag.next, h.bag.idx, h.bag.bag⟩
  obtain ⟨hcp, hfield, -, -⟩ := newPiece_spec b hbag
  have hscore := (newPiece_score b (lock g)).trans (lock_score g)
  unfold land
  generalize newPiece (fillBag b) (lock g) = taken at hcp hfield hscore
  obtain ⟨type, q⟩ := taken
  dsimp only at hcp hfield hscore ⊢
  rw [spawn_field, spawn_score, spawn_cp]
  refine ⟨?_, hscore, ?_⟩
  · show (if validPosition q.field q.cp then clearField q.field else q.field) = _
    rw [hfield, hcp]
    rfl
  · show q.cp.y = 0
    rw [hcp]

theorem tryMove_keeps (g : Tetris) {move undo : Piece → Piece} (hmove : ∀ p, (move p).y = p.y)
    (hundo : ∀ p, (undo p).y = p.y) :
    (tryMove g move undo).field = g.field ∧ (tryMove g move undo).score = g.score ∧
      (tryMove g move undo).cp.y = g.cp.y := by
  unfold tryMove
  dsimp only
  split_ifs
  · exact ⟨rfl, rfl, (hundo _).trans (hmove g.cp)⟩
  · exact ⟨rfl, rfl, hmove g.cp⟩

/-- Keys leave the field, the score and the height of the piece alone. -/
theorem keyChange_keeps (g : Tetris) (e : Kernel.ModuleKeyEvent) :
    (keyChange g e).field = g.field ∧ (keyChange g e).score = g.score ∧
      (keyChange g e).cp.y = g.cp.y := by
  unfold keyChange
  split_ifs
  · exact ⟨rfl, rfl, rfl⟩
  · exact ⟨rfl, rfl, rfl⟩
  · exact ⟨rfl, rfl, rfl⟩
  · exact ⟨rfl, rfl, rfl⟩
  · exact tryMove_keeps g (fun _ => rfl) fun _ => rfl
  · exact tryMove_keeps g (fun _ => rfl) fun _ => rfl
  · exact tryMove_keeps g (fun _ => rfl) fun _ => rfl
  · exact ⟨rfl, rfl, rfl⟩

/-- **What an event can do**: it lands the piece, or it leaves field and score alone and
lowers the piece if it is a tick. -/
theorem apply_cases {g : Tetris} (h : Invariant g) (e : Event) :
    (lands g e = false ∧ (e.apply g).field = g.field ∧ (e.apply g).score = g.score ∧
        (e.apply g).cp.y = g.cp.y + (isTick e).toNat) ∨
      (lands g e = true ∧
        (e.apply g).field =
          (if toppedOut g then clearField (lock g).field else (lock g).field) ∧
        (e.apply g).score = i32 (g.score + 100 * fullRows (lockedRows g)) ∧
        (e.apply g).cp.y = 0) := by
  cases e with
  | key e =>
      obtain ⟨hfield, hscore, hy⟩ := keyChange_keeps g e
      exact .inl ⟨rfl, hfield, hscore, hy.trans (Int.add_zero _).symm⟩
  | timer b =>
      have happly : Event.apply g (.timer b) = timerEvent (fillBag b) g := rfl
      rw [happly, timerEvent_eq]
      cases hvalid : validPosition g.field (g.cp.drop 1) with
      | true => exact .inr ⟨hvalid, land_spec h b⟩
      | false => exact .inl ⟨hvalid, rfl, rfl, rfl⟩

/-! ## The laws of one event -/

theorem onLanding_of_lands {g : Tetris} {e : Event} (h : lands g e = true) (amount : Tetris → ℕ) :
    onLanding amount g e = amount g := if_pos h

theorem onLanding_of_not {g : Tetris} {e : Event} (h : lands g e = false) (amount : Tetris → ℕ) :
    onLanding amount g e = 0 := if_neg (Bool.eq_false_iff.mp h)

/-- **One event keeps the blocks in balance.** -/
theorem apply_blocks {g : Tetris} (h : Invariant g) (e : Event) :
    blocks (e.apply g) + (10 * rowsFound g e + wiped g e) =
      blocks g + (4 * landed g e + copied g e) := by
  unfold rowsFound wiped landed copied blocks
  obtain ⟨hlands, hfield, -, -⟩ | ⟨hlands, hfield, -, -⟩ := apply_cases h e
  · simp only [onLanding_of_not hlands, hfield]
  · have hlocked := occupied_lockedRows h
    have hrows := occupied_fieldRows (toField g.field g.cp)
    rw [← lock_field] at hrows
    simp only [onLanding_of_lands hlands, hfield]
    unfold blocks lockedRows at hlocked
    unfold lockedRows
    split_ifs
    · rw [occupied_clearField]
      omega
    · omega

/-- The score grows by 100 for each full row. -/
theorem apply_score {g : Tetris} (h : Invariant g) (hscore : i32 g.score = g.score) (e : Event) :
    (e.apply g).score = i32 (g.score + 100 * rowsFound g e) := by
  unfold rowsFound
  obtain ⟨hlands, -, heq, -⟩ | ⟨hlands, -, heq, -⟩ := apply_cases h e
  · rw [onLanding_of_not hlands, heq, Nat.cast_zero, mul_zero, add_zero, hscore]
  · rw [onLanding_of_lands hlands, heq]

/-- The blocks of a shape are not above its first row. -/
theorem blockLoop_row (shape bit : ℕ) {row col : ℤ} (hrow : 0 ≤ row) :
    ∀ b ∈ blockLoop shape bit row col, 0 ≤ b.2 := by
  induction bit generalizing row col with
  | zero => exact fun b hb => absurd hb List.not_mem_nil
  | succ bit ih =>
      have hrest : ∀ b ∈ (if col + 1 = 4 then blockLoop shape bit (row + 1) 0
          else blockLoop shape bit row (col + 1)), 0 ≤ b.2 := by
        split_ifs
        · exact ih (by omega)
        · exact ih hrow
      rw [blockLoop]
      by_cases hbit : shape &&& 2 ^ bit ≠ 0
      · rw [if_pos hbit]
        exact List.forall_mem_cons.mpr ⟨hrow, hrest⟩
      · rw [if_neg hbit]
        exact hrest

/-- A piece that fits is above the floor. -/
theorem cp_y_le {g : Tetris} (h : Invariant g) : g.cp.y ≤ 19 := by
  obtain ⟨c, hc⟩ : ∃ c, c ∈ g.cp.cells :=
    List.exists_mem_of_length_pos (length_cells h.rotation h.type ▸ (by decide : 0 < 4))
  obtain ⟨-, -, -, hlt⟩ := (h.fits c hc).1
  obtain ⟨b, hb, rfl⟩ := List.mem_map.mp hc
  have hlow := blockLoop_row _ _ (Int.le_refl 0) b hb
  change g.cp.y + b.2 < 20 at hlt
  omega

/-- The invariant, and the piece is not above the field. -/
structure InPlay (g : Tetris) : Prop where
  invariant : Invariant g
  y_nonneg : 0 ≤ g.cp.y

theorem apply_inPlay {g : Tetris} (h : InPlay g) (e : Event) : InPlay (e.apply g) := by
  refine ⟨apply_invariant h.invariant e, ?_⟩
  have hy := h.y_nonneg
  obtain ⟨-, -, -, heq⟩ | ⟨-, -, -, heq⟩ := apply_cases h.invariant e
  · omega
  · omega

theorem play_inPlay (b : Bag) (events : List Event) : InPlay (play b events) := by
  refine List.foldlRecOn (motive := InPlay) _ _ ⟨start_invariant b, le_rfl⟩ fun g hg e _ => ?_
  exact apply_inPlay hg e

/-- **A tick lowers the piece or lands it.** -/
theorem apply_height {g : Tetris} (h : InPlay g) (e : Event) :
    g.cp.y.toNat + (isTick e).toNat ≤ (e.apply g).cp.y.toNat + 20 * landed g e := by
  have hfloor := cp_y_le h.invariant
  have hy := h.y_nonneg
  have htick : (isTick e).toNat ≤ 1 := Bool.toNat_le _
  unfold landed
  obtain ⟨hlands, -, -, heq⟩ | ⟨hlands, -, -, heq⟩ := apply_cases h.invariant e
  · rw [onLanding_of_not hlands, heq]
    omega
  · rw [onLanding_of_lands hlands, heq]
    omega

/-! ## The laws of a run -/

theorem play_blocks {g : Tetris} (h : Invariant g) (events : List Event) :
    blocks (events.foldl Event.apply g) + (10 * total Event.apply rowsFound g events +
        total Event.apply wiped g events) =
      blocks g + (4 * total Event.apply landed g events + total Event.apply copied g events) := by
  have hbalance := total_balance (m := blocks) (fun g e hg => apply_invariant hg e)
    (fun g e hg => apply_blocks hg e) h events
  rw [total_add, total_add, total_mul, total_mul] at hbalance
  exact hbalance

theorem play_score {g : Tetris} (h : Invariant g) (hscore : i32 g.score = g.score)
    (events : List Event) :
    (events.foldl Event.apply g).score =
      i32 (g.score + 100 * (total Event.apply rowsFound g events : ℕ)) := by
  induction events generalizing g with
  | nil => exact hscore.symm.trans (congrArg i32 (Int.add_zero g.score).symm)
  | cons e events ih =>
      have hstep := apply_score h hscore e
      have hwrap : i32 (e.apply g).score = (e.apply g).score := by
        rw [hstep]
        exact Int.bmod_bmod
      rw [List.foldl_cons, ih (apply_invariant h e) hwrap, hstep, total_cons, Nat.cast_add, mul_add,
        ← Int.add_assoc]
      exact Int.bmod_add_bmod

theorem start_blocks (b : Bag) : blocks (start b) = 0 := by
  obtain ⟨-, hfield, -, -⟩ := newPiece_spec b (reset_bagOk boot_bagOk)
  have hstart : (start b).field = (newPiece (fillBag b) (reset Tetris.boot)).2.field := rfl
  rw [blocks, hstart, hfield, reset_field, occupied_clearField]

/-- **Every block is accounted for.**  At any time of any game the blocks in the field, ten
for each full row and those that were wiped when a game was over are four for each piece
that landed and those that a shift of the rows doubled; the score is 100 for each row. -/
theorem blocks_accounted (b : Bag) (events : List Event) :
    let sum := fun amount => total Event.apply amount (start b) events
    blocks (play b events) + (10 * sum rowsFound + sum wiped) = 4 * sum landed + sum copied ∧
      (play b events).score = i32 (100 * sum rowsFound) := by
  intro sum
  have hinv := start_invariant b
  have hblocks := play_blocks hinv events
  have hscore := play_score hinv rfl events
  rw [start_blocks, Nat.zero_add] at hblocks
  rw [show (start b).score = 0 from rfl, zero_add] at hscore
  exact ⟨hblocks, hscore⟩

/-- **Pieces keep landing**: at whatever point of a game, whatever types the bag is filled
with and whatever keys are pressed, every 20 ticks land a piece. -/
theorem pieces_keep_landing (b : Bag) (pre events : List Event) :
    events.countP isTick ≤ 20 * total Event.apply landed (play b pre) events + 19 := by
  have hpaid := total_le (m := fun g : Tetris => g.cp.y.toNat)
    (fun g e hg => apply_inPlay hg e) (fun g e hg => apply_height hg e) (play_inPlay b pre) events
  rw [total_count, total_mul] at hpaid
  have hend := play_inPlay b (pre ++ events)
  rw [play, List.foldl_append] at hend
  have hfloor := cp_y_le hend.invariant
  have hy := hend.y_nonneg
  change _ ≤ (events.foldl Event.apply (pre.foldl Event.apply (start b))).cp.y.toNat + _ at hpaid
  omega

end OsdevX64.TetrisModule
