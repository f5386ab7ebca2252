import OsdevX64.Tetris.Game

/-!
# The game invariant

The falling piece lies inside the field on empty cells, whatever keys and timer
ticks arrive and whatever types the bag is filled with.  The types are given from
outside (`fillBag`): a refill is taken to change the bag only and to leave types in it.

`Invariant` couples the piece, the field and the static variables of
`_new_piece`.  A key that moves the piece either finds room and keeps the
invariant by the test itself, or undoes the move and leaves the state as it was
(`keyChange_target`).  When the piece lands, its cells are inside the field
because they were free (`toField_fieldOk`), and the new piece is either free or
meets a field that has just been cleared (`spawn_fits`).
-/

namespace OsdevX64.TetrisModule

open MachineInt Kernel

/-- A cell of the field. -/
def Inside (x y : ℤ) : Prop := 0 ≤ x ∧ x < fieldWidth ∧ 0 ≤ y ∧ y < fieldHeight

/-- The cells of a piece are inside the field and empty. -/
def Fits (field : Tracked ℤ ℤ) (p : Piece) : Prop :=
  ∀ c ∈ p.cells, Inside c.1 c.2 ∧ field.cell (cellIndex c.1 c.2) = 0

/-- An index of the array `field`. -/
def IsIndex (i : ℤ) : Prop := 0 ≤ i ∧ i < 200

/-- The cells hold 0 or the number of a type plus 1, and only they were written. -/
structure FieldOk (field : Tracked ℤ ℤ) : Prop where
  cells : ∀ i, IsIndex i → 0 ≤ field.cell i ∧ field.cell i ≤ 7
  writes : ∀ i ∈ field.writes, IsIndex i

/-- The number of a piece type. -/
def IsType (t : ℤ) : Prop := 0 ≤ t ∧ t ≤ 6

/-- The static variables of `_new_piece`. -/
structure BagOk (g : Tetris) : Prop where
  next : IsType g.next
  idx : 0 ≤ g.idx ∧ g.idx ≤ 6
  bag : ∀ i, 0 ≤ i → i < 7 → IsType (g.bag.cell i)

/-- **The invariant of the game.** -/
structure Invariant (g : Tetris) : Prop where
  rotation : 0 ≤ g.cp.rotation ∧ g.cp.rotation ≤ 3
  type : IsType g.cp.type
  fits : Fits g.field g.cp
  field : FieldOk g.field
  bag : BagOk g
  np_type : g.np.type = g.next

/-! ## The field -/

theorem isIndex_cellIndex {x y : ℤ} (h : Inside x y) : IsIndex (cellIndex x y) := by
  obtain ⟨hx, hx', hy, hy'⟩ := h
  unfold fieldWidth at hx'
  unfold fieldHeight at hy'
  unfold IsIndex cellIndex fieldWidth
  omega

theorem FieldOk.write {field : Tracked ℤ ℤ} (h : FieldOk field) {i v : ℤ} (hi : IsIndex i)
    (hv : 0 ≤ v ∧ v ≤ 7) : FieldOk (field.write i v) where
  cells j hj := by
    rw [Tracked.cell_write, Function.update_apply]
    split_ifs
    · exact hv
    · exact h.cells j hj
  writes j hj := by
    rcases List.mem_cons.mp hj with rfl | hj
    · exact hi
    · exact h.writes j hj

theorem clearField_fieldOk {field : Tracked ℤ ℤ} (h : FieldOk field) :
    FieldOk (clearField field) := by
  refine List.foldlRecOn (motive := FieldOk) _ _ h fun f hf i hi => hf.write ?_ (by decide)
  have hlt := List.mem_range.mp hi
  exact ⟨by omega, by omega⟩

/-- Filling a list of cells with one value. -/
theorem foldl_write_cell (cells : List ℕ) (field : Tracked ℤ ℤ) (v i : ℤ) :
    ((cells.foldl (fun field (k : ℕ) => field.write (k : ℤ) v) field).cell i) =
      if ∃ k ∈ cells, (k : ℤ) = i then v else field.cell i := by
  induction cells generalizing field with
  | nil => simp
  | cons k cells ih =>
      rw [List.foldl_cons, ih, Tracked.cell_write, Function.update_apply]
      by_cases hrest : ∃ j ∈ cells, (j : ℤ) = i
      · obtain ⟨j, hj, hji⟩ := hrest
        rw [if_pos ⟨j, hj, hji⟩, if_pos ⟨j, List.mem_cons_of_mem _ hj, hji⟩]
      · rw [if_neg hrest]
        by_cases hk : (k : ℤ) = i
        · rw [if_pos hk.symm, if_pos ⟨k, List.mem_cons_self, hk⟩]
        · rw [if_neg (Ne.symm hk), if_neg]
          rintro ⟨j, hj, hji⟩
          rcases List.mem_cons.mp hj with rfl | hj
          · exact hk hji
          · exact hrest ⟨j, hj, hji⟩

theorem clearField_cell (field : Tracked ℤ ℤ) {i : ℤ} (hi : IsIndex i) :
    (clearField field).cell i = 0 := by
  unfold clearField
  rw [foldl_write_cell, if_pos]
  refine ⟨i.toNat, List.mem_range.mpr ?_, Int.toNat_of_nonneg hi.1⟩
  have hlt := hi.2
  omega

theorem shiftRow_fieldOk {field : Tracked ℤ ℤ} (h : FieldOk field) {y : ℤ} (hy : 1 ≤ y)
    (hy' : y < 20) : FieldOk (shiftRow field y) := by
  refine List.foldlRecOn (motive := FieldOk) _ _ h fun f hf x hx => ?_
  have hlt := List.mem_range.mp hx
  have hto : Inside (x : ℤ) y := ⟨by omega, by unfold fieldWidth; omega, by omega, hy'⟩
  have hfrom : Inside (x : ℤ) (y - 1) :=
    ⟨by omega, by unfold fieldWidth; omega, by omega, by unfold fieldHeight; omega⟩
  exact hf.write (isIndex_cellIndex hto) (hf.cells _ (isIndex_cellIndex hfrom))

/-- `_field_shift` writes inside the field. -/
theorem fieldShift_fieldOk {field : Tracked ℤ ℤ} (h : FieldOk field) {row : ℕ} (hrow : row < 20) :
    FieldOk (fieldShift field row) := by
  induction row generalizing field with
  | zero => exact h
  | succ row ih => exact ih (shiftRow_fieldOk h (by omega) (by omega)) (by omega)

theorem fieldRows_fieldOk {field : Tracked ℤ ℤ} (h : FieldOk field) :
    FieldOk (fieldRows field).1 := by
  refine List.foldlRecOn (motive := fun r : Tracked ℤ ℤ × ℤ => FieldOk r.1) _ _ h
    fun r hr y hy => ?_
  obtain ⟨f, score⟩ := r
  dsimp only
  split_ifs
  · exact fieldShift_fieldOk hr (List.mem_range.mp hy)
  · exact hr

/-- **A piece that fits is put inside the field.** -/
theorem toField_fieldOk {field : Tracked ℤ ℤ} {p : Piece} (h : FieldOk field)
    (hfits : Fits field p) (htype : IsType p.type) : FieldOk (toField field p) := by
  obtain ⟨hlow, hhigh⟩ := htype
  refine List.foldlRecOn (motive := FieldOk) _ _ h fun f hf c hc => ?_
  exact hf.write (isIndex_cellIndex (hfits c hc).1) ⟨by omega, by omega⟩

/-! ## The test -/

theorem fieldGet_eq_zero {field : Tracked ℤ ℤ} {x y : ℤ} :
    fieldGet field x y = 0 ↔ Inside x y ∧ field.cell (cellIndex x y) = 0 := by
  unfold fieldGet
  split_ifs with hout
  · refine iff_of_false (by decide) fun h => ?_
    obtain ⟨⟨hx, hx', hy, hy'⟩, -⟩ := h
    omega
  · push Not at hout
    exact ⟨fun h => ⟨hout, h⟩, fun h => h.2⟩

/-- `_valid_position` answers 0 exactly where the piece fits. -/
theorem validPosition_eq_false {field : Tracked ℤ ℤ} {p : Piece} :
    validPosition field p = false ↔ Fits field p := by
  unfold validPosition Fits
  rw [List.any_eq_false]
  constructor
  · intro h c hc
    exact fieldGet_eq_zero.mp (by simpa using h c hc)
  · intro h c hc
    simpa using fieldGet_eq_zero.mpr (h c hc)

theorem validPosition_eq_true {field : Tracked ℤ ℤ} {p : Piece} :
    validPosition field p = true ↔ ¬ Fits field p := by
  rw [← validPosition_eq_false, Bool.not_eq_false]

/-! ## New pieces -/

/-- A content of the bag: seven types. -/
structure Bag where
  cells : ℤ → ℤ
  types : ∀ i, 0 ≤ i → i < 7 → IsType (cells i)

/-- Fill the bag with the given types, and change nothing else. -/
def fillBag (b : Bag) (g : Tetris) : Tetris := { g with bag := { g.bag with cell := b.cells } }

/-- Handing out a piece. -/
theorem takePiece_spec {g : Tetris} (h : BagOk g) (hidx : g.idx ≤ 5) :
    (takePiece g).2.cp = ⟨4, 0, 0, g.next⟩ ∧ (takePiece g).2.field = g.field ∧
      (takePiece g).2.next = (takePiece g).1 ∧ BagOk (takePiece g).2 := by
  obtain ⟨hlow, -⟩ := h.idx
  refine ⟨rfl, rfl, rfl, h.bag g.idx hlow (by omega), ?_, h.bag⟩
  show 0 ≤ g.idx + 1 ∧ g.idx + 1 ≤ 6
  omega

/-- A new piece is at the top, has the announced type and leaves the field. -/
theorem newPiece_spec (b : Bag) {g : Tetris} (h : BagOk g) :
    (newPiece (fillBag b) g).2.cp = ⟨4, 0, 0, g.next⟩ ∧
      (newPiece (fillBag b) g).2.field = g.field ∧
      (newPiece (fillBag b) g).2.next = (newPiece (fillBag b) g).1 ∧
      BagOk (newPiece (fillBag b) g).2 := by
  unfold newPiece
  by_cases hempty : g.idx = 6
  · rw [if_pos hempty]
    exact takePiece_spec (g := { fillBag b g with idx := 0 })
      ⟨h.next, ⟨Int.le_refl 0, (by decide : (0 : ℤ) ≤ 6)⟩, b.types⟩ (by decide : (0 : ℤ) ≤ 5)
  · rw [if_neg hempty]
    have hidx := h.idx.2
    exact takePiece_spec h (by omega)

/-- A new piece fits into an empty field. -/
theorem spawn_fits {field : Tracked ℤ ℤ} (hempty : ∀ i, IsIndex i → field.cell i = 0) {t : ℤ}
    (ht : IsType t) : Fits field ⟨4, 0, 0, t⟩ := by
  have hinside : ∀ c ∈ (Piece.mk 4 0 0 t).cells, Inside c.1 c.2 := by
    obtain ⟨hlow, hhigh⟩ := ht
    have hcases : t = 0 ∨ t = 1 ∨ t = 2 ∨ t = 3 ∨ t = 4 ∨ t = 5 ∨ t = 6 := by omega
    unfold Inside
    rcases hcases with rfl | rfl | rfl | rfl | rfl | rfl | rfl <;> decide
  intro c hc
  exact ⟨hinside c hc, hempty _ (isIndex_cellIndex (hinside c hc))⟩

/-- Every piece has four cells. -/
theorem length_cells {p : Piece} (hrotation : 0 ≤ p.rotation ∧ p.rotation ≤ 3)
    (htype : IsType p.type) : p.cells.length = 4 := by
  have htable : ∀ t ∈ List.range 7, ∀ r ∈ List.range 4,
      (blockLoop (blocksOf t r) 16 0 0).length = 4 := by decide
  obtain ⟨ht, ht'⟩ := htype
  obtain ⟨hr, hr'⟩ := hrotation
  have hlen := htable p.type.toNat (List.mem_range.mpr (by omega)) p.rotation.toNat
    (List.mem_range.mpr (by omega))
  rw [Int.toNat_of_nonneg ht, Int.toNat_of_nonneg hr] at hlen
  rw [Piece.cells, List.length_map, hlen]

/-! ## Keys -/

/-- Where a key wants to move a piece. -/
def target (key : BitVec 32) (p : Piece) : Option Piece :=
  if key = keyUp then some { p with rotation := (p.rotation - 1) % 4 }
  else if key = keyLeft then some { p with x := p.x - 1 }
  else if key = keyRight then some { p with x := p.x + 1 }
  else none

/-- Replacing only the falling piece, by one that fits. -/
theorem Invariant.setCp {g : Tetris} (h : Invariant g) {p : Piece}
    (hrotation : 0 ≤ p.rotation ∧ p.rotation ≤ 3) (htype : p.type = g.cp.type)
    (hfits : Fits g.field p) : Invariant (g.setCp p) :=
  ⟨hrotation, htype ▸ h.type, hfits, h.field, ⟨h.bag.next, h.bag.idx, h.bag.bag⟩, h.np_type⟩

/-- A move that can be undone ends at its target or where it began. -/
theorem tryMove_eq (g : Tetris) {move undo : Piece → Piece} (h : undo (move g.cp) = g.cp) :
    tryMove g move undo =
      if validPosition g.field (move g.cp) then g else g.setCp (move g.cp) := by
  unfold tryMove
  show (if validPosition g.field (move g.cp) then g.setCp (undo (move g.cp)) else _) = _
  rw [h]
  rfl

theorem turn_rotation {p : Piece} (h : 0 ≤ p.rotation ∧ p.rotation ≤ 3) :
    p.turn = { p with rotation := (p.rotation - 1) % 4 } := by
  obtain ⟨hlow, hhigh⟩ := h
  have hturn : (if p.rotation - 1 = -1 then 3 else p.rotation - 1) = (p.rotation - 1) % 4 := by
    split_ifs <;> omega
  unfold Piece.turn
  dsimp only
  rw [hturn]

theorem turnBack_turn {p : Piece} (h : 0 ≤ p.rotation ∧ p.rotation ≤ 3) :
    p.turn.turnBack = p := by
  obtain ⟨hlow, hhigh⟩ := h
  have hback : (if (p.rotation - 1) % 4 + 1 = 4 then 0 else (p.rotation - 1) % 4 + 1) =
      p.rotation := by
    split_ifs <;> omega
  rw [turn_rotation ⟨hlow, hhigh⟩]
  unfold Piece.turnBack
  dsimp only
  rw [hback]

theorem shift_shift (p : Piece) (dx : ℤ) : (p.shift dx).shift (-dx) = p := by
  unfold Piece.shift
  dsimp only
  rw [Int.add_neg_cancel_right]

/-- **A move whose target does not fit** leaves the state as it was; otherwise
the piece is at the target. -/
theorem keyChange_target {g : Tetris} (h : 0 ≤ g.cp.rotation ∧ g.cp.rotation ≤ 3)
    {e : ModuleKeyEvent} (hr : e.released = 0) {p : Piece} (hp : target e.key g.cp = some p) :
    keyChange g e = if validPosition g.field p then g else g.setCp p := by
  unfold target at hp
  unfold keyChange
  rw [if_neg (not_not_intro hr)]
  -- the keys are distinct, so each case picks its own branch of `event_key`
  split_ifs at hp with hup hleft hright
  · cases hp
    rw [hup, if_neg (by decide), if_neg (by decide), if_pos rfl, ← turn_rotation h]
    exact tryMove_eq g (turnBack_turn h)
  · cases hp
    rw [hleft, if_neg (by decide), if_neg (by decide), if_neg (by decide), if_pos rfl]
    exact tryMove_eq g (shift_shift g.cp (-1))
  · cases hp
    rw [hright, if_neg (by decide), if_neg (by decide), if_neg (by decide), if_neg (by decide),
      if_pos rfl]
    exact tryMove_eq g (shift_shift g.cp 1)

/-- A key without a target changes neither piece nor field. -/
theorem keyChange_of_no_target {g : Tetris} {e : ModuleKeyEvent}
    (h : e.released ≠ 0 ∨ target e.key g.cp = none) :
    ∃ ticks status, keyChange g e = { g with ticksUpdate := ticks, status := status } := by
  unfold keyChange
  split_ifs with hr hdown hesc hdown hup hleft hright
  · exact ⟨fallSpeedDefault, g.status, rfl⟩
  · exact ⟨g.ticksUpdate, g.status, rfl⟩
  · exact ⟨g.ticksUpdate, _, rfl⟩
  · exact ⟨fallSpeedFast, g.status, rfl⟩
  · exact absurd (h.resolve_left hr) (by
      rw [target, if_pos hup]
      exact Option.some_ne_none _)
  · exact absurd (h.resolve_left hr) (by
      rw [target, if_neg hup, if_pos hleft]
      exact Option.some_ne_none _)
  · exact absurd (h.resolve_left hr) (by
      rw [target, if_neg hup, if_neg hleft, if_pos hright]
      exact Option.some_ne_none _)
  · exact ⟨g.ticksUpdate, g.status, rfl⟩

theorem target_keeps {key : BitVec 32} {p q : Piece} (h : target key p = some q)
    (hp : 0 ≤ p.rotation ∧ p.rotation ≤ 3) :
    (0 ≤ q.rotation ∧ q.rotation ≤ 3) ∧ q.type = p.type := by
  unfold target at h
  split_ifs at h
  · cases h
    refine ⟨⟨?_, ?_⟩, rfl⟩ <;> dsimp only <;> omega
  · cases h
    exact ⟨hp, rfl⟩
  · cases h
    exact ⟨hp, rfl⟩

theorem keyChange_invariant {g : Tetris} (h : Invariant g) (e : ModuleKeyEvent) :
    Invariant (keyChange g e) := by
  by_cases hr : e.released = 0
  · cases htarget : target e.key g.cp with
    | none =>
        obtain ⟨ticks, status, heq⟩ := keyChange_of_no_target (Or.inr htarget)
        rw [heq]
        exact ⟨h.rotation, h.type, h.fits, h.field, ⟨h.bag.next, h.bag.idx, h.bag.bag⟩, h.np_type⟩
    | some p =>
        rw [keyChange_target h.rotation hr htarget]
        obtain ⟨hrotation, htype⟩ := target_keeps htarget h.rotation
        split_ifs with hvalid
        · exact h
        · exact h.setCp hrotation htype
            (validPosition_eq_false.mp (Bool.not_eq_true _ ▸ hvalid))
  · obtain ⟨ticks, status, heq⟩ := keyChange_of_no_target (g := g) (Or.inl hr)
    rw [heq]
    exact ⟨h.rotation, h.type, h.fits, h.field, ⟨h.bag.next, h.bag.idx, h.bag.bag⟩, h.np_type⟩

/-! ## The timer -/

/-- A new piece that fits. -/
theorem invariant_setField {g : Tetris} {field : Tracked ℤ ℤ} {t : ℤ} (ht : IsType t)
    (hcp : g.cp = ⟨4, 0, 0, t⟩) (hfits : Fits field g.cp) (hfield : FieldOk field)
    (hbag : BagOk g) (hnp : g.np.type = g.next) : Invariant (g.setField field) := by
  refine ⟨?_, ?_, hfits, hfield, ⟨hbag.next, hbag.idx, hbag.bag⟩, hnp⟩
  · show 0 ≤ g.cp.rotation ∧ g.cp.rotation ≤ 3
    rw [hcp]
    exact ⟨Int.le_refl 0, (by decide : (0 : ℤ) ≤ 3)⟩
  · show IsType g.cp.type
    rw [hcp]
    exact ht

/-- **A new piece is in order**, since it fits or meets an empty field. -/
theorem spawn_invariant {g : Tetris} {t : ℤ} (ht : IsType t) (hcp : g.cp = ⟨4, 0, 0, t⟩)
    (hfield : FieldOk g.field) (hbag : BagOk g) (hnp : g.np.type = g.next) :
    Invariant (spawn g) := by
  unfold spawn
  split_ifs with hvalid
  -- game over: the new piece meets a field that has just been cleared
  · have hfits : Fits (clearField g.field) g.cp := by
      rw [hcp]
      exact spawn_fits (fun i hi => clearField_cell g.field hi) ht
    exact invariant_setField ht hcp hfits (clearField_fieldOk hfield) hbag hnp
  · have hfits := validPosition_eq_false.mp (Bool.not_eq_true _ ▸ hvalid)
    exact invariant_setField ht hcp hfits hfield hbag hnp

theorem spawn_cp (g : Tetris) : (spawn g).cp = g.cp := by
  unfold spawn
  split_ifs <;> rfl

theorem lock_field (g : Tetris) : (lock g).field = (fieldRows (toField g.field g.cp)).1 := by
  unfold lock
  dsimp only

/-- **Landing keeps the invariant** and brings the announced piece. -/
theorem land_invariant {g : Tetris} (h : Invariant g) (b : Bag) :
    Invariant (land (fillBag b) g) ∧ (land (fillBag b) g).cp.type = g.np.type := by
  have hlocked : FieldOk (lock g).field := by
    rw [lock_field]
    exact fieldRows_fieldOk (toField_fieldOk h.field h.fits h.type)
  have hbag₀ : BagOk (lock g) := ⟨h.bag.next, h.bag.idx, h.bag.bag⟩
  have hannounced : (lock g).next = g.np.type := h.np_type.symm
  have htype : IsType (lock g).next := h.bag.next
  obtain ⟨hcp, hfield, hnext, hbag⟩ := newPiece_spec b hbag₀
  unfold land
  -- only the spec of `newPiece` is used from here on
  generalize newPiece (fillBag b) (lock g) = taken at hcp hfield hnext hbag
  obtain ⟨type, q⟩ := taken
  dsimp only at hcp hfield hnext hbag ⊢
  rw [← hfield] at hlocked
  refine ⟨spawn_invariant htype hcp hlocked ⟨hbag.next, hbag.idx, hbag.bag⟩ hnext.symm, ?_⟩
  rw [spawn_cp]
  show q.cp.type = g.np.type
  rw [hcp, hannounced]

theorem drop_drop (p : Piece) (dy : ℤ) : (p.drop dy).drop (-dy) = p := by
  unfold Piece.drop
  dsimp only
  rw [Int.add_neg_cancel_right]

theorem timerEvent_eq (refill : Tetris → Tetris) (g : Tetris) :
    timerEvent refill g =
      if validPosition g.field (g.cp.drop 1) then land refill g else g.setCp (g.cp.drop 1) := by
  unfold timerEvent
  show (if validPosition g.field (g.cp.drop 1) then
    land refill (g.setCp ((g.cp.drop 1).drop (-1))) else _) = _
  rw [drop_drop]
  rfl

theorem timerEvent_invariant {g : Tetris} (h : Invariant g) (b : Bag) :
    Invariant (timerEvent (fillBag b) g) := by
  rw [timerEvent_eq]
  split_ifs with hvalid
  · exact (land_invariant h b).1
  · exact h.setCp h.rotation rfl (validPosition_eq_false.mp (Bool.not_eq_true _ ▸ hvalid))

/-! ## Runs -/

/-- An event after INIT; a timer tick comes with what the bag is filled with if
it is refilled then. -/
inductive Event
  | key (e : ModuleKeyEvent)
  | timer (b : Bag)

/-- One event. -/
def Event.apply (g : Tetris) : Event → Tetris
  | .key e => (signalHandler id g (.keyboard e)).1
  | .timer b => (signalHandler (fillBag b) g .timer).1

/-- The game after INIT. -/
def start (b : Bag) : Tetris := (signalHandler (fillBag b) Tetris.boot .init).1

/-- The game after INIT and the given events. -/
def play (b : Bag) (events : List Event) : Tetris := events.foldl Event.apply (start b)

theorem apply_invariant {g : Tetris} (h : Invariant g) (event : Event) :
    Invariant (event.apply g) := by
  cases event with
  | key e => exact keyChange_invariant h e
  | timer b => exact timerEvent_invariant h b

theorem reset_field (g : Tetris) : (reset g).field = clearField g.field := by
  unfold reset
  dsimp only

theorem reset_next (g : Tetris) : (reset g).next = g.next := by
  unfold reset
  dsimp only

theorem reset_bagOk {g : Tetris} (h : BagOk g) : BagOk (reset g) := by
  unfold reset
  exact ⟨h.next, h.idx, h.bag⟩

/-- **`mmain` establishes the invariant** from any field and bag that are in
order, since it clears the field before the first piece appears. -/
theorem mmain_invariant {g : Tetris} (hfield₀ : FieldOk g.field) (hbag₀ : BagOk g) (b : Bag) :
    Invariant (mmain (fillBag b) g).1 := by
  obtain ⟨hcp, hfield, hnext, hbag⟩ := newPiece_spec b (reset_bagOk hbag₀)
  rw [reset_next] at hcp
  rw [reset_field] at hfield
  unfold mmain
  generalize newPiece (fillBag b) (reset g) = taken at hcp hfield hnext hbag
  obtain ⟨type, q⟩ := taken
  dsimp only at hcp hfield hnext hbag ⊢
  have hcleared : FieldOk q.field := by
    rw [hfield]
    exact clearField_fieldOk hfield₀
  have hfits : Fits q.field q.cp := by
    rw [hfield, hcp]
    exact spawn_fits (fun i hi => clearField_cell g.field hi) hbag₀.next
  exact invariant_setField (g := q.announce type) hbag₀.next hcp hfits hcleared
    ⟨hbag.next, hbag.idx, hbag.bag⟩ hnext.symm

theorem boot_fieldOk : FieldOk Tetris.boot.field :=
  ⟨fun _ _ => ⟨Int.le_refl 0, (by decide : (0 : ℤ) ≤ 7)⟩, fun _ hi => absurd hi List.not_mem_nil⟩

theorem boot_bagOk : BagOk Tetris.boot := by
  have hzero : IsType 0 := ⟨Int.le_refl 0, (by decide : (0 : ℤ) ≤ 6)⟩
  exact ⟨hzero, ⟨(by decide : (0 : ℤ) ≤ 6), Int.le_refl 6⟩, fun _ _ _ => hzero⟩

/-- INIT establishes the invariant. -/
theorem start_invariant (b : Bag) : Invariant (start b) :=
  mmain_invariant boot_fieldOk boot_bagOk b

theorem play_invariant (b : Bag) (events : List Event) : Invariant (play b events) := by
  refine List.foldlRecOn (motive := Invariant) _ _ (start_invariant b) fun g hg event _ => ?_
  exact apply_invariant hg event

end OsdevX64.TetrisModule
