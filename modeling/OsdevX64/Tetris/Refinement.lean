import OsdevX64.Tetris.Shuffle
import OsdevX64.Tetris.Window

/-!
# Games with the refill of the source

`play` and `display` are told what the bag is filled with; `runGame` and `runDisplay`
fill it with the loops of `_new_piece`.  Since a refill changes nothing but the bag and
the generator, and swaps only move entries, every run of the second kind is one of the
first (`run_is_played`): the same keys and ticks lead to the same game and to the same
picture, for some fillings with types.

The swaps leave the array from the first refill on.  Here the words they reach in front of
it are words of their own, zero when the module is loaded.  Where a build puts another
variable of the module there, the refill changes that variable and the game is no longer
one of `play`.
-/

namespace OsdevX64.TetrisModule

open Console Kernel

/-! ## Two states of one game -/

/-- The state with another bag and another generator. -/
def Tetris.resupply (g : Tetris) (bag : Tracked ℤ ℤ) (rngState : BitVec 32) : Tetris :=
  { g with bag := bag, rngState := rngState }

/-- The states differ at most in the generator and in the history of the bag, and the bag
and the words around it hold types. -/
structure SameGame (g g' : Tetris) : Prop where
  rest : g' = g.resupply g'.bag g'.rngState
  cells : g'.bag.cell = g.bag.cell
  types : ∀ i, IsType (g.bag.cell i)

theorem boot_same : SameGame Tetris.boot Tetris.boot :=
  ⟨rfl, rfl, fun _ => ⟨Int.le_refl 0, (by decide : (0 : ℤ) ≤ 6)⟩⟩

/-- A function that neither reads nor changes the supply keeps two states of one game
together. -/
theorem SameGame.map {g g' : Tetris} (h : SameGame g g') (f : Tetris → Tetris)
    (hsupply : ∀ g, SameSupply g (f g))
    (hf : ∀ g bag rngState, f (g.resupply bag rngState) = (f g).resupply bag rngState) :
    SameGame (f g) (f g') where
  rest := by
    rw [(hsupply g').bag, (hsupply g').rngState]
    conv_lhs => rw [h.rest]
    exact hf g g'.bag g'.rngState
  cells := by rw [(hsupply g').bag, (hsupply g).bag, h.cells]
  types := by
    rw [(hsupply g).bag]
    exact h.types

/-- What does not depend on the supply is the same in both. -/
theorem SameGame.apply_eq {α : Type} {g g' : Tetris} (h : SameGame g g') (f : Tetris → α)
    (hf : ∀ g bag rngState, f (g.resupply bag rngState) = f g) : f g' = f g :=
  (congrArg f h.rest).trans (hf g g'.bag g'.rngState)

/-! ## Filling the bag -/

theorem sortedBag_types {bag : Tracked ℤ ℤ} (h : ∀ i, IsType (bag.cell i)) :
    ∀ i, IsType ((sortedBag bag).cell i) := by
  refine List.foldlRecOn (motive := fun bag : Tracked ℤ ℤ => ∀ i, IsType (bag.cell i)) _ _ h
    fun bag hbag k hk i => ?_
  have hlt := List.mem_range.mp hk
  rw [Tracked.cell_write, Function.update_apply]
  split_ifs
  · exact ⟨by omega, by omega⟩
  · exact hbag i

/-- A swap only moves entries, wherever its index points. -/
theorem swaps_types {bag : Tracked ℤ ℤ} (h : ∀ i, IsType (bag.cell i)) (rs : ℕ → ℤ) (n : ℕ) :
    ∀ i, IsType ((swaps bag rs n).cell i) := by
  induction n with
  | zero => exact h
  | succ n ih =>
      intro i
      rw [swaps_succ, swapWith_cell]
      exact ih _

theorem refillBag_types {g : Tetris} (h : ∀ i, IsType (g.bag.cell i)) (i : ℤ) :
    IsType ((refillBag g).bag.cell i) := by
  rw [refillBag_eq]
  exact swaps_types (sortedBag_types h) _ 7 i

/-- What the refill of the source leaves in the bag. -/
def refilled {g : Tetris} (h : ∀ i, IsType (g.bag.cell i)) : Bag where
  cells := (refillBag g).bag.cell
  types i _ _ := refillBag_types h i

/-- **The refill of the source is one of the fillings.** -/
theorem SameGame.refill {g g' : Tetris} (h : SameGame g g') :
    SameGame (refillBag g) (fillBag (refilled h.types) g') where
  rest := by
    rw [refillBag_eq g]
    exact congrArg (fillBag (refilled h.types)) h.rest
  cells := rfl
  types := refillBag_types h.types

theorem SameGame.setIdx {g g' : Tetris} (h : SameGame g g') (idx : ℤ) :
    SameGame { g with idx := idx } { g' with idx := idx } where
  rest := congrArg (fun g : Tetris => { g with idx := idx }) h.rest
  cells := h.cells
  types := h.types

theorem takePiece_resupply (g : Tetris) {bag : Tracked ℤ ℤ} (hcells : bag.cell = g.bag.cell)
    (rngState : BitVec 32) :
    takePiece (g.resupply bag rngState) =
      ((takePiece g).1, (takePiece g).2.resupply (bag.read g.idx).2 rngState) := by
  have hnext : (takePiece (g.resupply bag rngState)).1 = (takePiece g).1 :=
    congrFun hcells g.idx
  refine Prod.ext hnext ?_
  show { g.resupply bag rngState with
    cp := ⟨4, 0, 0, g.next⟩
    next := (takePiece (g.resupply bag rngState)).1
    idx := g.idx + 1
    bag := (bag.read g.idx).2 } = _
  rw [hnext]
  rfl

theorem SameGame.takePiece {g g' : Tetris} (h : SameGame g g') :
    (takePiece g').1 = (takePiece g).1 ∧ SameGame (takePiece g).2 (takePiece g').2 := by
  rw [h.rest, takePiece_resupply g h.cells]
  exact ⟨rfl, rfl, h.cells, h.types⟩

/-- A new piece is the same with the filling that the source leaves. -/
theorem SameGame.newPiece {g g' : Tetris} (h : SameGame g g') :
    (newPiece (fillBag (refilled h.types)) g').1 = (newPiece refillBag g).1 ∧
      SameGame (newPiece refillBag g).2 (newPiece (fillBag (refilled h.types)) g').2 := by
  have hidx : g'.idx = g.idx := h.apply_eq Tetris.idx fun _ _ _ => rfl
  unfold TetrisModule.newPiece
  rw [hidx]
  split_ifs
  · exact (h.refill.setIdx 0).takePiece
  · exact h.takePiece

/-! ## Signals -/

theorem spawn_resupply (g : Tetris) (bag : Tracked ℤ ℤ) (rngState : BitVec 32) :
    spawn (g.resupply bag rngState) = (spawn g).resupply bag rngState := by
  have hfield : (g.resupply bag rngState).field = g.field := rfl
  have hcp : (g.resupply bag rngState).cp = g.cp := rfl
  unfold spawn
  rw [hfield, hcp]
  split_ifs
  · rfl
  · rfl

theorem tryMove_resupply (move undo : Piece → Piece) (g : Tetris) (bag : Tracked ℤ ℤ)
    (rngState : BitVec 32) :
    tryMove (g.resupply bag rngState) move undo =
      (tryMove g move undo).resupply bag rngState := by
  unfold tryMove
  show (if validPosition g.field (move g.cp) then _ else _) =
    (if validPosition g.field (move g.cp) then _ else _ : Tetris).resupply bag rngState
  split_ifs <;> rfl

theorem keyChange_resupply (e : ModuleKeyEvent) (g : Tetris) (bag : Tracked ℤ ℤ)
    (rngState : BitVec 32) :
    keyChange (g.resupply bag rngState) e = (keyChange g e).resupply bag rngState := by
  unfold keyChange rotate moveLeft moveRight
  split_ifs <;> first
    | rfl
    | exact tryMove_resupply _ _ g bag rngState

theorem SameGame.keyChange {g g' : Tetris} (h : SameGame g g') (e : ModuleKeyEvent) :
    SameGame (keyChange g e) (keyChange g' e) :=
  h.map (fun g => TetrisModule.keyChange g e) (fun g => keyChange_supply g e) (keyChange_resupply e)

theorem lock_resupply (g : Tetris) (bag : Tracked ℤ ℤ) (rngState : BitVec 32) :
    lock (g.resupply bag rngState) = (lock g).resupply bag rngState := by
  unfold lock Tetris.resupply
  dsimp only

/-- What `timer_event` announces after a landing. -/
def Tetris.landed (g : Tetris) (type : ℤ) : Tetris :=
  { g.announce type with ticksUpdate := fallSpeedDefault }

theorem landed_resupply (type : ℤ) (g : Tetris) (bag : Tracked ℤ ℤ) (rngState : BitVec 32) :
    (g.resupply bag rngState).landed type = (g.landed type).resupply bag rngState := rfl

theorem land_eq (refill : Tetris → Tetris) (g : Tetris) :
    land refill g =
      spawn ((newPiece refill (lock g)).2.landed (newPiece refill (lock g)).1) := rfl

theorem SameGame.land {g g' : Tetris} (h : SameGame g g') :
    ∃ b, SameGame (land refillBag g) (land (fillBag b) g') := by
  have hlock : SameGame (lock g) (lock g') := h.map lock (fun _ => ⟨rfl, rfl⟩) lock_resupply
  obtain ⟨htype, hpiece⟩ := hlock.newPiece
  refine ⟨refilled hlock.types, ?_⟩
  rw [land_eq, land_eq, htype]
  generalize (TetrisModule.newPiece refillBag (lock g)).1 = type
  have hlanded := hpiece.map (fun g => g.landed type) (fun _ => ⟨rfl, rfl⟩)
    (landed_resupply type)
  exact hlanded.map spawn spawn_supply spawn_resupply

theorem SameGame.timerEvent {g g' : Tetris} (h : SameGame g g') :
    ∃ b, SameGame (timerEvent refillBag g) (timerEvent (fillBag b) g') := by
  have hcp : g'.cp = g.cp := h.apply_eq Tetris.cp fun _ _ _ => rfl
  have hfield : g'.field = g.field := h.apply_eq Tetris.field fun _ _ _ => rfl
  obtain ⟨b, hland⟩ := h.land
  refine ⟨b, ?_⟩
  rw [timerEvent_eq, timerEvent_eq, hfield, hcp]
  split_ifs
  · exact hland
  · exact h.map (fun g' => g'.setCp (g.cp.drop 1)) (fun _ => ⟨rfl, rfl⟩) fun _ _ _ => rfl

theorem reset_resupply (g : Tetris) (bag : Tracked ℤ ℤ) (rngState : BitVec 32) :
    reset (g.resupply bag rngState) = (reset g).resupply bag 31419526 := by
  unfold reset Tetris.resupply
  dsimp only

theorem mmain_eq (refill : Tetris → Tetris) (g : Tetris) :
    (mmain refill g).1 = (newPiece refill (reset g)).2.announce (newPiece refill (reset g)).1 :=
  rfl

theorem SameGame.mmain {g g' : Tetris} (h : SameGame g g') :
    ∃ b, SameGame (mmain refillBag g).1 (mmain (fillBag b) g').1 := by
  have hreset : SameGame (reset g) (reset g') := by
    refine ⟨?_, h.cells, h.types⟩
    conv_lhs => rw [h.rest, reset_resupply]
    rfl
  obtain ⟨htype, hpiece⟩ := hreset.newPiece
  refine ⟨refilled hreset.types, ?_⟩
  rw [mmain_eq, mmain_eq, htype]
  generalize (TetrisModule.newPiece refillBag (reset g)).1 = type
  exact hpiece.map (fun g => g.announce type) (fun _ => ⟨rfl, rfl⟩) fun _ _ _ => rfl

/-! ## Runs -/

/-- Game and framebuffer after INIT and the given signals, with the refill of the source. -/
def runDisplay (graphics : Graphics) (signals : List Signal) : Display :=
  (.init :: signals).foldl (Display.handle refillBag) ⟨Tetris.boot, graphics⟩

/-- The signal of an event. -/
def Event.signal : Event → Signal
  | .key e => .keyboard e
  | .timer _ => .timer

/-- The same game in the same picture. -/
structure SameDisplay (d d' : Display) : Prop where
  game : SameGame d.game d'.game
  graphics : d'.graphics = d.graphics

theorem runDisplay_concat (graphics : Graphics) (signals : List Signal) (signal : Signal) :
    runDisplay graphics (signals ++ [signal]) =
      (runDisplay graphics signals).handle refillBag signal := by
  unfold runDisplay
  rw [← List.cons_append, List.foldl_append]
  rfl

/-- What is drawn in the display is a run of the game. -/
theorem runDisplay_game (graphics : Graphics) (signals : List Signal) :
    (runDisplay graphics signals).game = runGame signals := by
  induction signals using List.reverseRecOn with
  | nil => rfl
  | append_singleton signals signal ih =>
      unfold runGame
      rw [runDisplay_concat, ← List.cons_append, List.foldl_append]
      show (signalHandler refillBag (runDisplay graphics signals).game signal).1 = _
      rw [ih]
      rfl

/-- INIT draws the grid. -/
theorem SameDisplay.init {d d' : Display} (h : SameDisplay d d') :
    ∃ b, SameDisplay (d.handle refillBag .init) (d'.handle (fillBag b) .init) := by
  obtain ⟨b, hgame⟩ := h.game.mmain
  refine ⟨b, hgame, ?_⟩
  show drawRects d'.graphics drawGrid = drawRects d.graphics drawGrid
  rw [h.graphics]

/-- A signal of the source is an event of `play`. -/
theorem SameDisplay.signal {d d' : Display} (h : SameDisplay d d') {signal : Signal}
    (hsignal : signal ≠ .init) :
    ∃ e : Event, e.signal = signal ∧ SameDisplay (d.handle refillBag signal) (e.show d') := by
  cases signal with
  | init => exact absurd rfl hsignal
  | keyboard e =>
      have hgame := h.game.keyChange e
      refine ⟨.key e, rfl, hgame, ?_⟩
      show drawRects d'.graphics (update (keyChange d'.game e)) =
        drawRects d.graphics (update (keyChange d.game e))
      rw [h.graphics, hgame.apply_eq update fun _ _ _ => rfl]
  | timer =>
      obtain ⟨b, hgame⟩ := h.game.timerEvent
      exact ⟨.timer b, rfl, hgame, h.graphics⟩

/-- **Every run of the source's game is played**: with some fillings of the bag the same
keys and ticks lead to the same game and to the same picture. -/
theorem run_is_played (graphics : Graphics) {signals : List Signal} (hinit : .init ∉ signals) :
    ∃ (b : Bag) (events : List Event), events.map Event.signal = signals ∧
      SameGame (runGame signals) (play b events) ∧
      (display b graphics events).graphics = (runDisplay graphics signals).graphics := by
  suffices hsame : ∃ (b : Bag) (events : List Event), events.map Event.signal = signals ∧
      SameDisplay (runDisplay graphics signals) (display b graphics events) by
    obtain ⟨b, events, hevents, hgame, hgraphics⟩ := hsame
    rw [runDisplay_game, display_game] at hgame
    exact ⟨b, events, hevents, hgame, hgraphics⟩
  induction signals using List.reverseRecOn with
  | nil =>
      have hboot : SameDisplay ⟨Tetris.boot, graphics⟩ ⟨Tetris.boot, graphics⟩ := ⟨boot_same, rfl⟩
      obtain ⟨b, hinit⟩ := hboot.init
      refine ⟨b, [], rfl, ?_⟩
      rw [runDisplay, display, List.foldl_cons, List.foldl_nil, List.foldl_nil]
      exact hinit
  | append_singleton signals signal ih =>
      simp only [List.mem_append, List.mem_singleton, not_or] at hinit
      obtain ⟨b, events, hevents, hsame⟩ := ih hinit.1
      obtain ⟨e, he, hstep⟩ := hsame.signal (Ne.symm hinit.2)
      refine ⟨b, events ++ [e], ?_, ?_⟩
      · rw [List.map_append, hevents, List.map_singleton, he]
      · rw [runDisplay_concat, display_concat]
        exact hstep

end OsdevX64.TetrisModule
