import OsdevX64.Console.Painting
import OsdevX64.Lib.Layers
import OsdevX64.Tetris.Invariant

/-!
# The window of the game

The module draws by calls of the kernel's `graphics_rect`, and only on INIT and on key
events.  `Display` is the game together with the framebuffer it is drawn into.

* **The game paints its window and nothing else** (`paints_window_only`): in every run
  every pixel written is one of the upper left 320 columns and 400 rows.
* **What the window shows** (`window_shows_game`): in a framebuffer with a pitch of at least
  320, after a key event every pixel is the grid, a block of the field, of the falling piece
  or of the announced one, or what it was before.  Nothing is erased, so the window also
  shows where pieces have been.

The runs are those of `play`, in which the bag is filled with arbitrary types.
-/

namespace OsdevX64.TetrisModule

open Console Kernel Layers MachineInt

/-- `WINDOW_WIDTH`. -/
def windowWidth : ℕ := 320

/-- `WINDOW_HEIGHT`. -/
def windowHeight : ℕ := 400

/-! ## Drawing into the framebuffer -/

/-- A call of the kernel's `graphics_rect`, whose parameters are unsigned. -/
def Rect.draw (g : Graphics) (r : Rect) : Graphics :=
  graphicsRect g (u32OfInt r.x) (u32OfInt r.y) (u32OfInt r.w) (u32OfInt r.h) r.color

/-- The calls of one signal. -/
def drawRects (g : Graphics) (rects : List Rect) : Graphics := rects.foldl Rect.draw g

/-- The game and the framebuffer. -/
structure Display where
  game : Tetris
  graphics : Graphics

/-- `signal_handler`, with the calls it makes. -/
def Display.handle (refill : Tetris → Tetris) (d : Display) (signal : Signal) : Display :=
  let r := signalHandler refill d.game signal
  ⟨r.1, drawRects d.graphics r.2⟩

/-- One event. -/
def Event.show (d : Display) : Event → Display
  | .key e => d.handle id (.keyboard e)
  | .timer b => d.handle (fillBag b) .timer

/-- Game and framebuffer after INIT and the given events. -/
def display (b : Bag) (graphics : Graphics) (events : List Event) : Display :=
  events.foldl Event.show (Display.handle (fillBag b) ⟨Tetris.boot, graphics⟩ .init)

/-! ## Rectangles of the window -/

/-- The rectangle lies in the window. -/
structure InWindow (r : Rect) : Prop where
  left : 0 ≤ r.x
  right : r.x + r.w ≤ windowWidth
  top : 0 ≤ r.y
  bottom : r.y + r.h ≤ windowHeight
  width : 0 < r.w
  height : 0 < r.h

/-- The block at a position of the grid whose unit is a block. -/
theorem blockRect_inWindow {x y : ℤ} (hx : 0 ≤ x ∧ x < 16) (hy : 0 ≤ y ∧ y < 20) (type : ℤ) :
    InWindow (blockRect x y type) := by
  obtain ⟨hx0, hx16⟩ := hx
  obtain ⟨hy0, hy20⟩ := hy
  constructor <;> unfold blockRect blockSize <;> dsimp only
  · omega
  · unfold windowWidth
    omega
  · omega
  · unfold windowHeight
    omega
  · decide
  · decide

theorem drawPiece_inWindow {p : Piece}
    (h : ∀ c ∈ p.cells, (0 ≤ c.1 ∧ c.1 < 16) ∧ 0 ≤ c.2 ∧ c.2 < 20) :
    ∀ r ∈ drawPiece p, InWindow r := by
  intro r hr
  obtain ⟨c, hc, rfl⟩ := List.mem_map.mp hr
  exact blockRect_inWindow (h c hc).1 (h c hc).2 p.type

theorem drawField_inWindow (field : Tracked ℤ ℤ) : ∀ r ∈ drawField field, InWindow r := by
  intro r hr
  obtain ⟨y, hy, hr⟩ := List.mem_flatMap.mp hr
  obtain ⟨x, hx, hr⟩ := List.mem_flatMap.mp hr
  have hy20 := List.mem_range.mp hy
  have hx10 := List.mem_range.mp hx
  dsimp only at hr
  split_ifs at hr
  · rw [List.mem_singleton.mp hr]
    exact blockRect_inWindow ⟨by omega, by omega⟩ ⟨by omega, by omega⟩ _
  · exact absurd hr List.not_mem_nil

theorem drawGrid_inWindow : ∀ r ∈ drawGrid, InWindow r := by
  intro r hr
  rcases List.mem_append.mp hr with hr | hr
  · obtain ⟨i, hi, rfl⟩ := List.mem_map.mp hr
    have hlt := List.mem_range.mp hi
    constructor <;> simp only [blockSize, fieldHeight, windowWidth, windowHeight] <;> omega
  · obtain ⟨i, hi, rfl⟩ := List.mem_map.mp hr
    have hlt := List.mem_range.mp hi
    constructor <;> simp only [blockSize, fieldWidth, windowWidth, windowHeight] <;> omega

/-- Beside the field there is room for every piece that is announced. -/
theorem announced_cells {t : ℤ} (ht : IsType t) :
    ∀ c ∈ (Piece.mk 11 1 1 t).cells, (11 ≤ c.1 ∧ c.1 < 16) ∧ 0 ≤ c.2 ∧ c.2 < 20 := by
  have htable : ∀ t ∈ List.range 7, ∀ c ∈ (Piece.mk 11 1 1 (t : ℕ)).cells,
      (11 ≤ c.1 ∧ c.1 < 16) ∧ 0 ≤ c.2 ∧ c.2 < 20 := by decide
  obtain ⟨hlow, hhigh⟩ := ht
  have hcells := htable t.toNat (List.mem_range.mpr (by omega))
  rw [Int.toNat_of_nonneg hlow] at hcells
  exact hcells

/-- The game as it is drawn: the announced piece is beside the field. -/
structure Drawn (g : Tetris) : Prop where
  invariant : Invariant g
  announced : g.np = ⟨11, 1, 1, g.np.type⟩

theorem Drawn.announced_cells {g : Tetris} (h : Drawn g) :
    ∀ c ∈ g.np.cells, (11 ≤ c.1 ∧ c.1 < 16) ∧ 0 ≤ c.2 ∧ c.2 < 20 := by
  rw [h.announced]
  exact TetrisModule.announced_cells (h.invariant.np_type ▸ h.invariant.bag.next)

/-- **Everything `update` draws is in the window.** -/
theorem Drawn.update_inWindow {g : Tetris} (h : Drawn g) : ∀ r ∈ update g, InWindow r := by
  intro r hr
  unfold update at hr
  simp only [List.mem_append] at hr
  rcases hr with ((hr | hr) | hr) | hr
  · refine drawPiece_inWindow (fun c hc => ?_) r hr
    obtain ⟨hx, hy⟩ := h.announced_cells c hc
    exact ⟨⟨by omega, hx.2⟩, hy⟩
  · refine drawPiece_inWindow (fun c hc => ?_) r hr
    obtain ⟨hx, hx10, hy, hy20⟩ := (h.invariant.fits c hc).1
    unfold fieldWidth at hx10
    exact ⟨⟨hx, by omega⟩, hy, hy20⟩
  · exact drawField_inWindow g.field r hr
  · exact drawGrid_inWindow r hr

/-! ## The announced piece stays where it is -/

theorem tryMove_np (g : Tetris) (move undo : Piece → Piece) : (tryMove g move undo).np = g.np := by
  unfold tryMove
  dsimp only
  split_ifs <;> rfl

theorem keyChange_np (g : Tetris) (e : ModuleKeyEvent) : (keyChange g e).np = g.np := by
  unfold keyChange
  split_ifs
  · rfl
  · rfl
  · rfl
  · rfl
  · exact tryMove_np g _ _
  · exact tryMove_np g _ _
  · exact tryMove_np g _ _
  · rfl

theorem newPiece_np (b : Bag) (g : Tetris) : (newPiece (fillBag b) g).2.np = g.np := by
  unfold newPiece
  split_ifs <;> rfl

theorem spawn_np (g : Tetris) : (spawn g).np = g.np := by
  unfold spawn
  split_ifs <;> rfl

/-- An event changes no more than the type of the announced piece. -/
theorem apply_np (g : Tetris) (e : Event) : ∃ t, (e.apply g).np = { g.np with type := t } := by
  cases e with
  | key e => exact ⟨g.np.type, keyChange_np g e⟩
  | timer b =>
      have happly : Event.apply g (.timer b) = timerEvent (fillBag b) g := rfl
      rw [happly, timerEvent_eq]
      split_ifs
      · refine ⟨(newPiece (fillBag b) (lock g)).1, ?_⟩
        have hnp := newPiece_np b (lock g)
        unfold land
        generalize newPiece (fillBag b) (lock g) = taken at hnp
        obtain ⟨type, q⟩ := taken
        dsimp only at hnp ⊢
        rw [spawn_np]
        show { q.np with type := type } = _
        rw [hnp]
        rfl
      · exact ⟨g.np.type, rfl⟩

theorem apply_drawn {g : Tetris} (h : Drawn g) (e : Event) : Drawn (e.apply g) := by
  refine ⟨apply_invariant h.invariant e, ?_⟩
  obtain ⟨t, ht⟩ := apply_np g e
  rw [ht, h.announced]

theorem start_drawn (b : Bag) : Drawn (start b) := by
  refine ⟨start_invariant b, ?_⟩
  have hnp := newPiece_np b (reset Tetris.boot)
  have hstart : (start b).np = { (newPiece (fillBag b) (reset Tetris.boot)).2.np with
      type := (newPiece (fillBag b) (reset Tetris.boot)).1 } := rfl
  rw [hstart, hnp]
  rfl

/-! ## Painting rectangles of the window -/

theorem u32OfInt_eq {z : ℤ} (hlow : 0 ≤ z) (hhigh : z < 2 ^ 32) : u32OfInt z = z.toNat := by
  rw [u32OfInt, Int.emod_eq_of_lt hlow hhigh]

/-- Inside the window the conversion to unsigned parameters changes nothing. -/
theorem InWindow.draw_eq {r : Rect} (h : InWindow r) (g : Graphics) :
    r.draw g = graphicsRect g r.x.toNat r.y.toNat r.w.toNat r.h.toNat r.color := by
  obtain ⟨hx, hxw, hy, hyh, hw, hh⟩ := h
  unfold windowWidth at hxw
  unfold windowHeight at hyh
  unfold Rect.draw
  rw [u32OfInt_eq hx (by omega), u32OfInt_eq hy (by omega), u32OfInt_eq hw.le (by omega),
    u32OfInt_eq hh.le (by omega)]

/-- The pixels of a rectangle in the window, as columns and rows. -/
theorem InWindow.bounds {r : Rect} (h : InWindow r) :
    r.x.toNat + r.w.toNat ≤ windowWidth ∧ r.y.toNat + r.h.toNat ≤ windowHeight ∧
      0 < r.w.toNat ∧ 0 < r.h.toNat := by
  obtain ⟨hx, hxw, hy, hyh, hw, hh⟩ := h
  omega

/-- The words of the framebuffer that belong to the window. -/
def WindowWord (pitch k : ℕ) : Prop := InFrame pitch windowWidth windowHeight k

theorem draw_within {g : Graphics} {r : Rect} (h : InWindow r)
    (hg : g.pixels.Within (WindowWord g.pitch)) :
    (r.draw g).pixels.Within (WindowWord g.pitch) := by
  obtain ⟨hx, hy, hw, hh⟩ := h.bounds
  rw [h.draw_eq]
  exact graphicsRect_within (by decide) (by decide) hg hx hw hy hh r.color

theorem draw_frame {g : Graphics} {r : Rect} (h : InWindow r) {k : ℕ}
    (hk : ¬ WindowWord g.pitch k) : (r.draw g).pixels.cell k = g.pixels.cell k := by
  obtain ⟨hx, hy, hw, hh⟩ := h.bounds
  unfold windowWidth at hx
  unfold windowHeight at hy
  rw [h.draw_eq]
  refine graphicsRect_frame (by omega) (by omega) r.color fun hin => hk ?_
  obtain ⟨i, j, hi, hj, rfl⟩ := hin
  exact ⟨i, j, hi.2.trans_le hx, hj.2.trans_le hy, rfl⟩

/-- A rectangle as a layer over the pixels, which are given by row and column. -/
def Rect.layer (r : Rect) : Layer (ℕ × ℕ) (BitVec 32) where
  covers p := (r.y ≤ p.1 ∧ p.1 < r.y + r.h) ∧ r.x ≤ p.2 ∧ p.2 < r.x + r.w
  value := r.color

theorem draw_pixel {g : Graphics} {r : Rect} (h : InWindow r) (hpitch : windowWidth ≤ g.pitch)
    (row : ℕ) {column : ℕ} (hcolumn : column < g.pitch) :
    (r.draw g).pixel row column =
      if r.layer.covers (row, column) then r.layer.value else g.pixel row column := by
  obtain ⟨hx, hy, -, -⟩ := h.bounds
  have hy16 : r.y.toNat + r.h.toNat < 2 ^ 16 := by
    unfold windowHeight at hy
    omega
  rw [h.draw_eq, pixel_graphicsRect (hx.trans hpitch) hy16 r.color row hcolumn]
  obtain ⟨hleft, -, htop, -, hw, hh⟩ := h
  unfold Rect.layer
  simp only [decide_eq_true_eq]
  congr 1
  exact propext ⟨fun hin => by omega, fun hin => by omega⟩

section Rects

variable {rects : List Rect} (h : ∀ r ∈ rects, InWindow r) {g : Graphics}

theorem drawRects_pitch (g : Graphics) (rects : List Rect) :
    (drawRects g rects).pitch = g.pitch := by
  refine List.foldlRecOn (motive := fun g' : Graphics => g'.pitch = g.pitch) _ _ rfl
    fun g' hg' r _ => ?_
  exact hg'

include h

theorem drawRects_within (hg : g.pixels.Within (WindowWord g.pitch)) :
    (drawRects g rects).pixels.Within (WindowWord g.pitch) := by
  induction rects generalizing g with
  | nil => exact hg
  | cons r rects ih =>
      obtain ⟨hr, hrects⟩ := List.forall_mem_cons.mp h
      exact @ih hrects (r.draw g) (draw_within hr hg)

theorem drawRects_frame {k : ℕ} (hk : ¬ WindowWord g.pitch k) :
    (drawRects g rects).pixels.cell k = g.pixels.cell k := by
  induction rects generalizing g with
  | nil => rfl
  | cons r rects ih =>
      obtain ⟨hr, hrects⟩ := List.forall_mem_cons.mp h
      exact (@ih hrects (r.draw g) hk).trans (draw_frame hr hk)

/-- What is seen of the rectangles. -/
theorem drawRects_pixel (hpitch : windowWidth ≤ g.pitch) (row : ℕ) {column : ℕ}
    (hcolumn : column < g.pitch) :
    (drawRects g rects).pixel row column =
      seen (rects.map Rect.layer) (row, column) (g.pixel row column) := by
  induction rects generalizing g with
  | nil => rfl
  | cons r rects ih =>
      obtain ⟨hr, hrects⟩ := List.forall_mem_cons.mp h
      rw [List.map_cons, seen_cons, ← draw_pixel hr hpitch row hcolumn]
      exact @ih hrects (r.draw g) hpitch hcolumn

end Rects

/-! ## What is seen of an update -/

/-- The pixel is on a line of the grid. -/
def OnGrid (row column : ℕ) : Prop :=
  (column % 20 = 0 ∧ column ≤ 200 ∧ row < 400) ∨ (row % 20 = 0 ∧ row < 400 ∧ column < 200)

instance (row column : ℕ) : Decidable (OnGrid row column) :=
  inferInstanceAs (Decidable (_ ∨ _))

/-- The block that a pixel is in. -/
def blockOf (row column : ℕ) : ℤ × ℤ := ((column / 20 : ℕ), (row / 20 : ℕ))

/-- The cell of the field that a pixel is in. -/
def cellAt (g : Tetris) (row column : ℕ) : ℤ :=
  g.field.cell (cellIndex (blockOf row column).1 (blockOf row column).2)

/-- What a pixel shows after an update: the grid, a block of the field, of the falling or
of the announced piece, or what it showed before. -/
def shown (g : Tetris) (row column : ℕ) (before : BitVec 32) : BitVec 32 :=
  if OnGrid row column then 0
  else if (row < 400 ∧ column < 200) ∧ cellAt g row column ≠ 0 then
    colorOf (cellAt g row column - 1)
  else if blockOf row column ∈ g.cp.cells then colorOf g.cp.type
  else if blockOf row column ∈ g.np.cells then colorOf g.np.type
  else before

theorem blockRect_covers (x y type : ℤ) (row column : ℕ) :
    (blockRect x y type).layer.covers (row, column) = true ↔ (x, y) = blockOf row column := by
  unfold Rect.layer blockRect blockSize blockOf
  simp only [decide_eq_true_eq, Prod.mk.injEq]
  constructor
  · intro hin
    omega
  · intro hblock
    omega

theorem drawPiece_seen (p : Piece) (row column : ℕ) (before : BitVec 32) :
    seen ((drawPiece p).map Rect.layer) (row, column) before =
      if blockOf row column ∈ p.cells then colorOf p.type else before := by
  rw [@seen_uniform _ _ _ _ (colorOf p.type)]
  · congr 1
    refine propext ⟨?_, fun hmem => ?_⟩
    · rintro ⟨l, hl, hcovers⟩
      obtain ⟨r, hr, rfl⟩ := List.mem_map.mp hl
      obtain ⟨c, hc, rfl⟩ := List.mem_map.mp hr
      rw [← (blockRect_covers _ _ _ _ _).mp hcovers]
      exact hc
    · exact ⟨_, List.mem_map_of_mem (List.mem_map_of_mem hmem),
        (blockRect_covers _ _ _ _ _).mpr rfl⟩
  · intro l hl _
    obtain ⟨r, hr, rfl⟩ := List.mem_map.mp hl
    obtain ⟨c, -, rfl⟩ := List.mem_map.mp hr
    rfl

/-- The blocks of the field, each drawn where its cell is not empty. -/
theorem mem_drawField {field : Tracked ℤ ℤ} {r : Rect} :
    r ∈ drawField field ↔ ∃ x y : ℕ, x < 10 ∧ y < 20 ∧ field.cell (cellIndex x y) ≠ 0 ∧
      r = blockRect x y (field.cell (cellIndex x y) - 1) := by
  unfold drawField
  simp only [List.mem_flatMap, List.mem_range]
  constructor
  · rintro ⟨y, hy, x, hx, hr⟩
    split_ifs at hr with hcell
    · exact ⟨x, y, hx, hy, hcell, List.mem_singleton.mp hr⟩
    · exact absurd hr List.not_mem_nil
  · rintro ⟨x, y, hx, hy, hcell, rfl⟩
    exact ⟨y, hy, x, hx, by rw [if_pos hcell]; exact List.mem_singleton.mpr rfl⟩

theorem drawField_seen (g : Tetris) (row column : ℕ) (before : BitVec 32) :
    seen ((drawField g.field).map Rect.layer) (row, column) before =
      if (row < 400 ∧ column < 200) ∧ cellAt g row column ≠ 0 then
        colorOf (cellAt g row column - 1)
      else before := by
  have hcells (x y : ℕ) (type : ℤ) (h : (blockRect x y type).layer.covers (row, column) = true) :
      x = column / 20 ∧ y = row / 20 := by
    obtain ⟨hx, hy⟩ := Prod.mk.inj ((blockRect_covers _ _ _ _ _).mp h)
    exact ⟨Int.ofNat_inj.mp hx, Int.ofNat_inj.mp hy⟩
  rw [@seen_uniform _ _ _ _ (colorOf (cellAt g row column - 1))]
  · congr 1
    refine propext ⟨?_, ?_⟩
    · rintro ⟨l, hl, hcovers⟩
      obtain ⟨r, hr, rfl⟩ := List.mem_map.mp hl
      obtain ⟨x, y, hx, hy, hcell, rfl⟩ := mem_drawField.mp hr
      obtain ⟨rfl, rfl⟩ := hcells x y _ hcovers
      exact ⟨⟨by omega, by omega⟩, hcell⟩
    · rintro ⟨⟨hrow, hcolumn⟩, hcell⟩
      exact ⟨_, List.mem_map_of_mem (mem_drawField.mpr
        ⟨column / 20, row / 20, by omega, by omega, hcell, rfl⟩),
        (blockRect_covers _ _ _ _ _).mpr rfl⟩
  · intro l hl hcovers
    obtain ⟨r, hr, rfl⟩ := List.mem_map.mp hl
    obtain ⟨x, y, -, -, -, rfl⟩ := mem_drawField.mp hr
    obtain ⟨rfl, rfl⟩ := hcells x y _ hcovers
    rfl

/-- The lines of the grid. -/
theorem mem_drawGrid {r : Rect} :
    r ∈ drawGrid ↔ (∃ i : ℕ, i < 11 ∧ r = ⟨i * 20, 0, 1, 400, 0⟩) ∨
      ∃ i : ℕ, i < 20 ∧ r = ⟨0, i * 20, 200, 1, 0⟩ := by
  unfold drawGrid
  simp only [List.mem_append, List.mem_map, List.mem_range]
  constructor
  · rintro (⟨i, hi, rfl⟩ | ⟨i, hi, rfl⟩)
    · exact .inl ⟨i, hi, rfl⟩
    · exact .inr ⟨i, hi, rfl⟩
  · rintro (⟨i, hi, rfl⟩ | ⟨i, hi, rfl⟩)
    · exact .inl ⟨i, hi, rfl⟩
    · exact .inr ⟨i, hi, rfl⟩

theorem drawGrid_seen (row column : ℕ) (before : BitVec 32) :
    seen (drawGrid.map Rect.layer) (row, column) before =
      if OnGrid row column then 0 else before := by
  rw [@seen_uniform _ _ _ _ 0]
  · congr 1
    refine propext ⟨?_, ?_⟩
    · rintro ⟨l, hl, hcovers⟩
      obtain ⟨r, hr, rfl⟩ := List.mem_map.mp hl
      unfold OnGrid
      rcases mem_drawGrid.mp hr with ⟨i, hi, rfl⟩ | ⟨i, hi, rfl⟩ <;>
        simp only [Rect.layer, decide_eq_true_eq] at hcovers <;> omega
    · rintro (⟨hline, hcolumn, hrow⟩ | ⟨hline, hrow, hcolumn⟩)
      · refine ⟨_, List.mem_map_of_mem (mem_drawGrid.mpr
          (.inl ⟨column / 20, by omega, rfl⟩)), ?_⟩
        simp only [Rect.layer, decide_eq_true_eq]
        omega
      · refine ⟨_, List.mem_map_of_mem (mem_drawGrid.mpr (.inr ⟨row / 20, by omega, rfl⟩)), ?_⟩
        simp only [Rect.layer, decide_eq_true_eq]
        omega
  · intro l hl _
    obtain ⟨r, hr, rfl⟩ := List.mem_map.mp hl
    rcases mem_drawGrid.mp hr with ⟨i, -, rfl⟩ | ⟨i, -, rfl⟩ <;> rfl

/-- **What is seen of an update.** -/
theorem update_seen (g : Tetris) (row column : ℕ) (before : BitVec 32) :
    seen ((update g).map Rect.layer) (row, column) before = shown g row column before := by
  unfold update shown
  rw [List.map_append, List.map_append, List.map_append, seen_append, seen_append, seen_append,
    drawGrid_seen, drawField_seen, drawPiece_seen, drawPiece_seen]

/-! ## The framebuffer of a run -/

theorem show_game (d : Display) (e : Event) : (e.show d).game = e.apply d.game := by
  cases e <;> rfl

theorem display_game (b : Bag) (graphics : Graphics) (events : List Event) :
    (display b graphics events).game = play b events := by
  unfold display play
  induction events using List.reverseRecOn with
  | nil => rfl
  | append_singleton events e ih =>
      rw [List.foldl_append, List.foldl_append, List.foldl_cons, List.foldl_nil, List.foldl_cons,
        List.foldl_nil, show_game, ih]

theorem display_concat (b : Bag) (graphics : Graphics) (events : List Event) (e : Event) :
    display b graphics (events ++ [e]) = e.show (display b graphics events) :=
  List.foldl_append

theorem display_drawn (b : Bag) (graphics : Graphics) (events : List Event) :
    Drawn (display b graphics events).game := by
  rw [display_game]
  refine List.foldlRecOn (motive := Drawn) _ _ (start_drawn b) fun g hg e _ => ?_
  exact apply_drawn hg e

/-- What one event draws lies in the window. -/
theorem show_draws {d : Display} (h : Drawn d.game) (e : Event) :
    ∃ rects, (∀ r ∈ rects, InWindow r) ∧ (e.show d).graphics = drawRects d.graphics rects := by
  cases e with
  | key e => exact ⟨update (keyChange d.game e), (apply_drawn h (.key e)).update_inWindow, rfl⟩
  | timer b => exact ⟨[], fun r hr => absurd hr List.not_mem_nil, rfl⟩

/-- The framebuffer differs from what it was at the start in the window only. -/
structure OnlyWindow (start g : Graphics) : Prop where
  pitch : g.pitch = start.pitch
  within : g.pixels.Within (WindowWord start.pitch)
  frame : ∀ k, ¬ WindowWord start.pitch k → g.pixels.cell k = start.pixels.cell k

theorem OnlyWindow.drawRects {start g : Graphics} (h : OnlyWindow start g) {rects : List Rect}
    (hrects : ∀ r ∈ rects, InWindow r) : OnlyWindow start (drawRects g rects) where
  pitch := (drawRects_pitch g rects).trans h.pitch
  within := h.pitch ▸ drawRects_within hrects (h.pitch.symm ▸ h.within)
  frame k hk := (drawRects_frame hrects (h.pitch.symm ▸ hk)).trans (h.frame k hk)

/-- **The game paints its window and nothing else**, in every run, whatever types the bag is
filled with, and into every framebuffer. -/
theorem paints_window_only (b : Bag) (framebuffer : ℕ → BitVec 32) (font : ByteMemory.Memory ℕ)
    (pitch : Fin (2 ^ 16)) (events : List Event) :
    let start := (Screen.boot framebuffer font pitch).graphics
    OnlyWindow start (display b start events).graphics := by
  intro start
  have hstart : OnlyWindow start start := ⟨rfl, Tracked.within_fresh framebuffer, fun _ _ => rfl⟩
  induction events using List.reverseRecOn with
  | nil => exact hstart.drawRects drawGrid_inWindow
  | append_singleton events e ih =>
      obtain ⟨rects, hrects, heq⟩ := show_draws (display_drawn b start events) e
      rw [display_concat, heq]
      exact ih.drawRects hrects

theorem display_pitch (b : Bag) (graphics : Graphics) (events : List Event) :
    (display b graphics events).graphics.pitch = graphics.pitch := by
  induction events using List.reverseRecOn with
  | nil => exact drawRects_pitch graphics drawGrid
  | append_singleton events e ih =>
      obtain ⟨rects, -, heq⟩ := show_draws (display_drawn b graphics events) e
      rw [display_concat, heq, drawRects_pitch, ih]

/-- **What the window shows**, whatever types the bag is filled with and if the rows of the
framebuffer are at least as long as its own: INIT draws the grid, a tick draws nothing, and
after a key event every pixel shows the game, or what it showed before. -/
theorem window_shows_game (b : Bag) {graphics : Graphics} (hpitch : windowWidth ≤ graphics.pitch)
    (row : ℕ) {column : ℕ} (hcolumn : column < graphics.pitch) :
    let pixel := fun events => (display b graphics events).graphics.pixel row column
    pixel [] = (if OnGrid row column then 0 else graphics.pixel row column) ∧
      ∀ events,
        (∀ b', pixel (events ++ [.timer b']) = pixel events) ∧
        ∀ e, pixel (events ++ [.key e]) =
          shown (play b (events ++ [.key e])) row column (pixel events) := by
  intro pixel
  refine ⟨?_, fun events => ⟨fun b' => ?_, fun e => ?_⟩⟩
  · exact (drawRects_pixel drawGrid_inWindow hpitch row hcolumn).trans (drawGrid_seen row column _)
  · show (display b graphics _).graphics.pixel row column = _
    rw [display_concat]
    rfl
  · have hdrawn := apply_drawn (display_drawn b graphics events) (.key e)
    have hgame : play b (events ++ [.key e]) = keyChange (display b graphics events).game e := by
      rw [← display_game b graphics, display_concat]
      rfl
    show (display b graphics _).graphics.pixel row column = _
    rw [display_concat, hgame, ← update_seen]
    refine drawRects_pixel hdrawn.update_inWindow ?_ row ?_
    · rw [display_pitch]
      exact hpitch
    · rw [display_pitch]
      exact hcolumn

/-- A pixel of the first piece after a key that does not move it. -/
theorem window_shows_game_firstPiece :
    let graphics : Graphics := ⟨Tracked.fresh fun _ => 0, 320, by decide, Tracked.fresh fun _ => 0⟩
    let bag : Bag := ⟨fun _ => 0, fun _ _ _ => ⟨by decide, by decide⟩⟩
    (display bag graphics [.key ⟨0, 0, 0⟩]).graphics.pixel 30 90 = 0x00FFFF := by
  intro graphics bag
  obtain ⟨-, hsteps⟩ :=
    @window_shows_game bag graphics (by decide) 30 90 (show 90 < graphics.pitch by decide)
  exact ((hsteps []).2 ⟨0, 0, 0⟩).trans (by decide +kernel)

end OsdevX64.TetrisModule
