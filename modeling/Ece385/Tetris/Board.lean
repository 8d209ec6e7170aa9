import Ece385.Lib.RowStack
import Ece385.Tetris.Signals

/-!
# Tetris — `board.sv`

The settled cells and the score. A lock paints the four cells of the active
shape; independently of that, the hand-unrolled line-clear chain looks for a
full row from row 21 up to row 6 and rewrites all twenty-two rows. The chain
is a second statement of the same `always_ff`, so where it fires its
assignments are the later ones and win over the reset and over the paint.
-/

namespace Ece385.Tetris

/-! ## Painting a lock -/

/-- The cells `(dr, dc)` that the paint branch of each shape assigns, as
`board[((Y_Pos-135)/9)+dr][((X_Pos-270)/9)+dc]`, and the colour it assigns. -/
def paintTable (c : Choose) : Option (List (ℤ × ℤ) × BitVec 4) :=
  if c.chooseO then some ([(0, 0), (1, 0), (0, 1), (1, 1)], 2)
  else if c.chooseIHoriz then some ([(0, 0), (0, 1), (0, 2), (0, 3)], 1)
  else if c.chooseIVert then some ([(0, 0), (1, 0), (2, 0), (3, 0)], 1)
  else if c.chooseZHoriz then some ([(0, 0), (0, 1), (1, 1), (1, 2)], 3)
  else if c.chooseZVert then some ([(0, 1), (1, 0), (1, 1), (2, 0)], 3)
  else if c.chooseSHoriz then some ([(0, 1), (0, 2), (1, 0), (1, 1)], 5)
  else if c.chooseSVert then some ([(0, 0), (1, 0), (1, 1), (2, 1)], 5)
  else if c.chooseJUp then some ([(0, 1), (1, 1), (2, 1), (2, 0)], 6)
  else if c.chooseJDown then some ([(0, 0), (0, 1), (1, 0), (2, 0)], 6)
  else if c.chooseJLeft then some ([(0, 0), (0, 1), (0, 2), (1, 2)], 6)
  else if c.chooseJRight then some ([(0, 0), (1, 0), (1, 1), (1, 2)], 6)
  else if c.chooseLUp then some ([(0, 0), (1, 0), (2, 0), (2, 1)], 4)
  else if c.chooseLDown then some ([(0, 0), (0, 1), (1, 1), (2, 1)], 4)
  else if c.chooseLLeft then some ([(1, 0), (1, 1), (1, 2), (0, 2)], 4)
  else if c.chooseLRight then some ([(0, 0), (0, 1), (0, 2), (1, 0)], 4)
  else if c.chooseTUp then some ([(0, 1), (1, 0), (1, 1), (1, 2)], 7)
  else if c.chooseTDown then some ([(0, 0), (0, 1), (0, 2), (1, 1)], 7)
  else if c.chooseTLeft then some ([(0, 1), (1, 0), (1, 1), (2, 1)], 7)
  else if c.chooseTRight then some ([(0, 0), (1, 0), (2, 0), (1, 1)], 7)
  else none

/-- The cells the paint branch assigns with the piece at `(xPos, yPos)`. -/
def paintedCells (c : Choose) (xPos yPos : BitVec 10) : List (BitVec 32 × BitVec 32) :=
  match paintTable c with
  | some (cells, _) =>
    cells.map fun d => (offset (gridRow yPos) d.1, offset (gridCol xPos) d.2)
  | none => []

/-- The paint branch of the `always_ff`. -/
def paint (b : Board) (c : Choose) (xPos yPos : BitVec 10) : Board :=
  match paintTable c with
  | some (_, colour) =>
    (paintedCells c xPos yPos).foldl (fun b p => write b p.1 p.2 colour) b
  | none => b

/-! ## Clearing a line -/

/-- The eleven-term condition `(board[i][0] != 4'd0) && ... && (board[i][10] != 4'd0)`. -/
def rowFull (b : Board) (i : Fin 22) : Bool :=
  b i 0 != 0 && b i 1 != 0 && b i 2 != 0 && b i 3 != 0 && b i 4 != 0 && b i 5 != 0 &&
  b i 6 != 0 && b i 7 != 0 && b i 8 != 0 && b i 9 != 0 && b i 10 != 0

/-- The sixteen branches of the chain in source order: the row tested, and for
`board[21]` down to `board[1]` the row assigned to it. -/
def lineClearTable : List (Fin 22 × List (Fin 22)) := [
  (21, [20, 19, 18, 17, 16, 15, 14, 13, 12, 11, 10, 9, 8, 7, 6, 5, 4, 3, 2, 1, 0]),
  (20, [21, 19, 18, 17, 16, 15, 14, 13, 12, 11, 10, 9, 8, 7, 6, 5, 4, 3, 2, 1, 0]),
  (19, [21, 20, 18, 17, 16, 15, 14, 13, 12, 11, 10, 9, 8, 7, 6, 5, 4, 3, 2, 1, 0]),
  (18, [21, 20, 19, 17, 16, 15, 14, 13, 12, 11, 10, 9, 8, 7, 6, 5, 4, 3, 2, 1, 0]),
  (17, [21, 20, 19, 18, 16, 15, 14, 13, 12, 11, 10, 9, 8, 7, 6, 5, 4, 3, 2, 1, 0]),
  (16, [21, 20, 19, 18, 17, 15, 14, 13, 12, 11, 10, 9, 8, 7, 6, 5, 4, 3, 2, 1, 0]),
  (15, [21, 20, 19, 18, 17, 16, 14, 13, 12, 11, 10, 9, 8, 7, 6, 5, 4, 3, 2, 1, 0]),
  (14, [21, 20, 19, 18, 17, 16, 15, 13, 12, 11, 10, 9, 8, 7, 6, 5, 4, 3, 2, 1, 0]),
  (13, [21, 20, 19, 18, 17, 16, 15, 14, 12, 11, 10, 9, 8, 7, 6, 5, 4, 3, 2, 1, 0]),
  (12, [21, 20, 19, 18, 17, 16, 15, 14, 13, 11, 10, 9, 8, 7, 6, 5, 4, 3, 2, 1, 0]),
  (11, [21, 20, 19, 18, 17, 16, 15, 14, 13, 12, 10, 9, 8, 7, 6, 5, 4, 3, 2, 1, 0]),
  (10, [21, 20, 19, 18, 17, 16, 15, 14, 13, 12, 11, 9, 8, 7, 6, 5, 4, 3, 2, 1, 0]),
  (9, [21, 20, 19, 18, 17, 16, 15, 14, 13, 12, 11, 10, 8, 7, 6, 5, 4, 3, 2, 1, 0]),
  (8, [21, 20, 19, 18, 17, 16, 15, 14, 13, 12, 11, 10, 9, 7, 6, 5, 4, 3, 2, 1, 0]),
  (7, [21, 20, 19, 18, 17, 16, 15, 14, 13, 12, 11, 10, 9, 8, 6, 5, 4, 3, 2, 1, 0]),
  (6, [21, 20, 19, 18, 17, 16, 15, 14, 13, 12, 11, 10, 9, 8, 7, 5, 4, 3, 2, 1, 0])]

/-- The assignments of one branch; `board[0] <= 0` ends each of them. -/
def assignRows (b : Board) (rows : List (Fin 22)) : Board :=
  -- the row listed for `board[i]` stands at place `21 - i`
  fun i => if i = 0 then 0 else b (rows.getD (21 - i.val) 0)

/-- The board as the line-clear chain leaves it, `none` when no branch is taken. -/
def lineClear (b : Board) : Option Board :=
  (lineClearTable.find? fun e => rowFull b e.1).map fun e => assignRows b e.2

/-! ## The registers -/

/-- The registers of `board`. -/
structure BoardRegs where
  board : Board
  score : BitVec 16

/-- The first statement of the `always_ff`: reset, or paint at a lock. -/
def BoardRegs.assign (s : BoardRegs) (reset atBottom : Bool) (c : Choose)
    (xPos yPos : BitVec 10) : BoardRegs :=
  if reset then { board := 0, score := 0 }
  -- painting does not touch the score
  else if atBottom then { s with board := paint s.board c xPos yPos }
  else s

/-- The second statement: a branch of the chain assigns every row and the
score, over what the first statement assigned. -/
def BoardRegs.override (old assigned : BoardRegs) : Option Board → BoardRegs
  | some b => { board := b, score := old.score + 1 }
  | none => assigned

/-- The `always_ff` block of `board`; both statements read the old registers. -/
def BoardRegs.step (s : BoardRegs) (reset atBottom : Bool) (c : Choose)
    (xPos yPos : BitVec 10) : BoardRegs :=
  s.override (s.assign reset atBottom c xPos yPos) (lineClear s.board)

end Ece385.Tetris
