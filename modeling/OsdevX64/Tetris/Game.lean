import OsdevX64.Kernel.Keys
import OsdevX64.Kernel.Signals
import OsdevX64.Lib.MachineInt
import OsdevX64.Lib.Tracked

/-!
# The Tetris module

`modules/tetris/main.c`.  The field is an array of 200 cells and the bag one of
7, both with `int` indices and without bounds checks; `_field_get` is the only
access that checks.  Coordinates and piece types are integers, as in the source.

The static variables of `_new_piece` are fields of the state.  The loops that
fill and shuffle the bag are `refillBag`; what draws a new piece takes them as
an argument, so that results can be stated for every way to fill the bag.
Drawing is a list of rectangles beside the state.
-/

namespace OsdevX64.TetrisModule

open MachineInt Kernel

/-- `FIELD_WIDTH`. -/
def fieldWidth : ℤ := 10

/-- `FIELD_HEIGHT`. -/
def fieldHeight : ℤ := 20

/-- `BLOCK_SIZE`. -/
def blockSize : ℤ := 20

/-- `FALL_SPEED_DEFAULT`. -/
def fallSpeedDefault : ℤ := 200

/-- `FALL_SPEED_FAST`. -/
def fallSpeedFast : ℤ := 30

/-- A piece; `type` is the number of its `PieceType`. -/
structure Piece where
  x : ℤ
  y : ℤ
  rotation : ℤ
  type : ℤ
  deriving DecidableEq, Repr

/-- An entry of the table `Pieces`. -/
structure PieceInfo where
  blocks : List ℕ
  color : BitVec 32

/-- `Pieces`: I, J, L, O, S, T, Z. -/
def pieces : List PieceInfo :=
  [⟨[0x0F00, 0x2222, 0x00F0, 0x4444], 0x00FFFF⟩,
    ⟨[0x44C0, 0x8E00, 0x6440, 0x0E20], 0x0000FF⟩,
    ⟨[0x4460, 0x0E80, 0xC440, 0x2E00], 0xFF7F00⟩,
    ⟨[0xCC00, 0xCC00, 0xCC00, 0xCC00], 0xFFFF00⟩,
    ⟨[0x06C0, 0x8C40, 0x6C00, 0x4620], 0x00FF00⟩,
    ⟨[0x0E40, 0x4C40, 0x4E00, 0x4640], 0xFF00FF⟩,
    ⟨[0x0C60, 0x4C80, 0xC600, 0x2640], 0xFF0000⟩]

/-- `Pieces[type].Blocks[rotation]`. -/
def blocksOf (type rotation : ℤ) : ℕ :=
  ((pieces.getD type.toNat ⟨[], 0⟩).blocks).getD rotation.toNat 0

/-- `Pieces[type].Color`. -/
def colorOf (type : ℤ) : BitVec 32 := (pieces.getD type.toNat ⟨[], 0⟩).color

/-- The state `tetris` and the static variables `next`, `idx` and `bag`. -/
structure Tetris where
  cp : Piece
  np : Piece
  status : BitVec 32
  ticks : ℤ
  lastTicks : ℤ
  ticksUpdate : ℤ
  score : ℤ
  field : Tracked ℤ ℤ
  rngState : BitVec 32
  next : ℤ
  idx : ℤ
  bag : Tracked ℤ ℤ

/-! ## The blocks of a piece -/

/-- The loop over the bits of `blocks`, from bit `bit - 1` down: columns and rows
of the bits that are set. -/
def blockLoop (blocks : ℕ) : ℕ → ℤ → ℤ → List (ℤ × ℤ)
  | 0, _, _ => []
  | bit + 1, row, col =>
      let rest :=
        if col + 1 = 4 then blockLoop blocks bit (row + 1) 0
        else blockLoop blocks bit row (col + 1)
      if blocks &&& 2 ^ bit ≠ 0 then (col, row) :: rest else rest

/-- The cells of a piece, from the bit `0x8000` on. -/
def Piece.cells (p : Piece) : List (ℤ × ℤ) :=
  (blockLoop (blocksOf p.type p.rotation) 16 0 0).map fun b => (p.x + b.1, p.y + b.2)

/-! ## The field -/

/-- The index of a cell. -/
def cellIndex (x y : ℤ) : ℤ := y * fieldWidth + x

/-- `_clear_field`. -/
def clearField (field : Tracked ℤ ℤ) : Tracked ℤ ℤ :=
  (List.range 200).foldl (fun field (i : ℕ) => field.write (i : ℤ) 0) field

/-- `_field_get`. -/
def fieldGet (field : Tracked ℤ ℤ) (x y : ℤ) : ℤ :=
  if x < 0 ∨ x ≥ fieldWidth ∨ y < 0 ∨ y ≥ fieldHeight then -1 else field.cell (cellIndex x y)

/-- The inner loop of `_field_shift`. -/
def shiftRow (field : Tracked ℤ ℤ) (y : ℤ) : Tracked ℤ ℤ :=
  (List.range 10).foldl
    (fun field (x : ℕ) => field.write (cellIndex x y) (field.cell (cellIndex x (y - 1)))) field

/-- `_field_shift`. -/
def fieldShift (field : Tracked ℤ ℤ) : ℕ → Tracked ℤ ℤ
  | 0 => field
  | y + 1 => fieldShift (shiftRow field (y + 1)) y

/-- The test of `_field_rows` whether a row is full. -/
def rowFull (field : Tracked ℤ ℤ) (y : ℕ) : Bool :=
  (List.range 10).all fun (x : ℕ) => field.cell (cellIndex x y) ≠ 0

/-- `_field_rows`. -/
def fieldRows (field : Tracked ℤ ℤ) : Tracked ℤ ℤ × ℤ :=
  (List.range 20).foldl
    (fun (field, score) (y : ℕ) =>
      if rowFull field y then (fieldShift field y, score + 100) else (field, score))
    (field, 0)

/-- `_valid_position`, which returns 1 where the piece does *not* fit. -/
def validPosition (field : Tracked ℤ ℤ) (p : Piece) : Bool :=
  p.cells.any fun c => fieldGet field c.1 c.2 ≠ 0

/-- `_to_field`. -/
def toField (field : Tracked ℤ ℤ) (p : Piece) : Tracked ℤ ℤ :=
  -- no test of the index: the caller has tried the position
  p.cells.foldl (fun field c => field.write (cellIndex c.1 c.2) (p.type + 1)) field

/-! ## New pieces -/

/-- `rand`; `>>` is arithmetic. -/
def rand (g : Tetris) : ℤ × Tetris :=
  let s := g.rngState ^^^ g.rngState <<< 13
  let s := s ^^^ s.sshiftRight 17
  let s := s ^^^ s <<< 5
  (s.toInt, { g with rngState := s })

/-- One swap of the shuffle. -/
def swapBag (g : Tetris) (i : ℤ) : Tetris :=
  let (r, g) := rand g
  let j := r.tmod 7
  let (tmp, bag) := g.bag.read i
  let (b, bag) := bag.read j
  { g with bag := (bag.write i b).write j tmp }

/-- The loops that fill and shuffle the bag. -/
def refillBag (g : Tetris) : Tetris :=
  let bag := (List.range 7).foldl (fun bag (i : ℕ) => bag.write (i : ℤ) (i : ℤ)) g.bag
  (List.range 7).foldl (fun g (i : ℕ) => swapBag g i) { g with bag := bag }

/-- The end of `_new_piece(&tetris.cp)`: hand out the announced piece and take
the next one from the bag. -/
def takePiece (g : Tetris) : ℤ × Tetris :=
  let (next, bag) := g.bag.read g.idx
  (next, { g with
    cp := { x := 4, y := 0, rotation := 0, type := g.next }
    next := next
    idx := g.idx + 1
    bag := bag })

/-- `_new_piece(&tetris.cp)`, with the loops that refill the bag. -/
def newPiece (refill : Tetris → Tetris) (g : Tetris) : ℤ × Tetris :=
  takePiece (if g.idx = 6 then { refill g with idx := 0 } else g)

/-! ## Drawing -/

/-- The arguments of a call of `graphics_rect`. -/
structure Rect where
  x : ℤ
  y : ℤ
  w : ℤ
  h : ℤ
  color : BitVec 32
  deriving DecidableEq, Repr

/-- One block of the field. -/
def blockRect (x y type : ℤ) : Rect :=
  ⟨x * blockSize, y * blockSize, blockSize, blockSize, colorOf type⟩

/-- `_draw_piece`. -/
def drawPiece (p : Piece) : List Rect := p.cells.map fun c => blockRect c.1 c.2 p.type

/-- `_draw_field`. -/
def drawField (field : Tracked ℤ ℤ) : List Rect :=
  (List.range 20).flatMap fun (y : ℕ) => (List.range 10).flatMap fun (x : ℕ) =>
    let v := field.cell (cellIndex x y)
    if v ≠ 0 then [blockRect x y (v - 1)] else []

/-- `_draw_grid`. -/
def drawGrid : List Rect :=
  (List.range 11).map (fun (i : ℕ) => ⟨i * blockSize, 0, 1, fieldHeight * blockSize, 0⟩) ++
    (List.range 20).map fun (i : ℕ) => ⟨0, i * blockSize, blockSize * fieldWidth, 1, 0⟩

/-- `update`. -/
def update (g : Tetris) : List Rect :=
  drawPiece g.np ++ drawPiece g.cp ++ drawField g.field ++ drawGrid

/-! ## Events -/

/-- Set the falling piece. -/
def Tetris.setCp (g : Tetris) (p : Piece) : Tetris := { g with cp := p }

/-- Set the field. -/
def Tetris.setField (g : Tetris) (field : Tracked ℤ ℤ) : Tetris := { g with field := field }

/-- `--Rotation`, modulo 4. -/
def Piece.turn (p : Piece) : Piece :=
  let r := p.rotation - 1
  { p with rotation := if r = -1 then 3 else r }

/-- `++Rotation`, modulo 4. -/
def Piece.turnBack (p : Piece) : Piece :=
  let r := p.rotation + 1
  { p with rotation := if r = 4 then 0 else r }

/-- Move to the side. -/
def Piece.shift (p : Piece) (dx : ℤ) : Piece := { p with x := p.x + dx }

/-- Move down. -/
def Piece.drop (p : Piece) (dy : ℤ) : Piece := { p with y := p.y + dy }

/-- Move the falling piece, and undo the move where it does not fit. -/
def tryMove (g : Tetris) (move undo : Piece → Piece) : Tetris :=
  let g := g.setCp (move g.cp)
  if validPosition g.field g.cp then g.setCp (undo g.cp) else g

/-- The case `KEY_UP`. -/
def rotate (g : Tetris) : Tetris := tryMove g Piece.turn Piece.turnBack

/-- The case `KEY_LEFT`. -/
def moveLeft (g : Tetris) : Tetris := tryMove g (Piece.shift · (-1)) (Piece.shift · 1)

/-- The case `KEY_RIGHT`. -/
def moveRight (g : Tetris) : Tetris := tryMove g (Piece.shift · 1) (Piece.shift · (-1))

/-- The switch of `event_key`. -/
def keyChange (g : Tetris) (e : ModuleKeyEvent) : Tetris :=
  if e.released ≠ 0 then
    if e.key = keyDown then { g with ticksUpdate := fallSpeedDefault } else g
  else if e.key = keyEscape then { g with status := g.status &&& ~~~1 }
  else if e.key = keyDown then { g with ticksUpdate := fallSpeedFast }
  else if e.key = keyUp then rotate g
  else if e.key = keyLeft then moveLeft g
  else if e.key = keyRight then moveRight g
  else g

/-- `event_key`. -/
def eventKey (g : Tetris) (e : ModuleKeyEvent) : Tetris × List Rect :=
  let g := keyChange g e
  (g, update g)

/-- Put the falling piece down and clear the full rows. -/
def lock (g : Tetris) : Tetris :=
  let rows := fieldRows (toField g.field g.cp)
  { g with field := rows.1, score := i32 (g.score + rows.2) }

/-- Announce a type. -/
def Tetris.announce (g : Tetris) (type : ℤ) : Tetris := { g with np := { g.np with type := type } }

/-- A new piece that does not fit ends the game: the field is cleared. -/
def spawn (g : Tetris) : Tetris :=
  if validPosition g.field g.cp then g.setField (clearField g.field) else g

/-- The part of `timer_event` for a piece that has landed. -/
def land (refill : Tetris → Tetris) (g : Tetris) : Tetris :=
  -- `next` is what the piece becomes, `type` what is announced after it
  let (type, g) := newPiece refill (lock g)
  spawn { g.announce type with ticksUpdate := fallSpeedDefault }

/-- `timer_event`. -/
def timerEvent (refill : Tetris → Tetris) (g : Tetris) : Tetris :=
  let g := g.setCp (g.cp.drop 1)
  if validPosition g.field g.cp then land refill (g.setCp (g.cp.drop (-1))) else g

/-- The fields that `mmain` sets. -/
def reset (g : Tetris) : Tetris :=
  { g with
    lastTicks := 0
    ticksUpdate := fallSpeedDefault
    score := 0
    rngState := 31419526
    np := { g.np with x := 11, y := 1, rotation := 1 }
    field := clearField g.field }

/-- `mmain`. -/
def mmain (refill : Tetris → Tetris) (g : Tetris) : Tetris × List Rect :=
  let (type, g) := newPiece refill (reset g)
  (g.announce type, drawGrid)

/-- `signal_handler`. -/
def signalHandler (refill : Tetris → Tetris) (g : Tetris) : Signal → Tetris × List Rect
  | .init => mmain refill g
  | .keyboard e => eventKey g e
  | .timer => (timerEvent refill g, [])

/-- The module as it is loaded: all static data is zero, except `idx`. -/
def Tetris.boot : Tetris where
  cp := ⟨0, 0, 0, 0⟩
  np := ⟨0, 0, 0, 0⟩
  status := 0
  ticks := 0
  lastTicks := 0
  ticksUpdate := 0
  score := 0
  field := Tracked.fresh fun _ => 0
  rngState := 0
  next := 0
  idx := 6
  bag := Tracked.fresh fun _ => 0

end OsdevX64.TetrisModule
