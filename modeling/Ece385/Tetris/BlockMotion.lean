import Ece385.Tetris.ChooseBlock

/-!
# Tetris — `block_motion.sv`

Position, motion and frame counters of the active piece. The `always_comb`
block assigns its variables in order, so it is embedded as a record of those
variables passed through its sections one after the other: landing check, key
handling, X boundary, Y boundary, X update, Y update. `at_bottom` is an output
and, through the `always_ff`, a synchronous respawn.
-/

namespace Ece385.Tetris

/-! ## Parameters, registers and inputs -/

def blockXStart : BitVec 10 := 297
def blockYStart : BitVec 10 := 135
def xMin : BitVec 10 := 270
def xMax : BitVec 10 := 369
def yMin : BitVec 10 := 135
def yMax : BitVec 10 := 333
def stepSize : BitVec 10 := 9

/-- The registers of `block_motion`. -/
structure MotionRegs where
  frameClkDelayed : Bool
  frameClkRisingEdge : Bool
  blockXPos : BitVec 10
  blockYPos : BitVec 10
  blockXMotion : BitVec 10
  blockYMotion : BitVec 10
  counterX : BitVec 16
  counterY : BitVec 16
  deriving DecidableEq

/-- The inputs of `block_motion`, with the oracle for out-of-range reads of
`board`. -/
structure MotionInputs where
  reset : Bool
  frameClk : Bool
  keycode : BitVec 8
  keypress : Bool
  select : ShapeSelect
  board : Board
  undefinedRead : UndefinedRead

/-- The variables of the `always_comb` block. -/
structure MotionComb where
  blockXPosIn : BitVec 10
  blockYPosIn : BitVec 10
  blockXMotionIn : BitVec 10
  blockYMotionIn : BitVec 10
  counterXIn : BitVec 16
  counterYIn : BitVec 16
  atBottom : Bool
  fastDrop : Bool
  moveHoriz : Bool

/-- The assignments at the head of the `always_comb` block. -/
def MotionRegs.defaults (m : MotionRegs) : MotionComb where
  blockXPosIn := m.blockXPos
  blockYPosIn := m.blockYPos
  blockXMotionIn := m.blockXMotion
  blockYMotionIn := m.blockYMotion
  counterXIn := m.counterX
  counterYIn := m.counterY
  atBottom := false
  fastDrop := false
  moveHoriz := false

/-! ## Collision tables

Each table lists, shape by shape in source order, the cells `(dr, dc)` whose
`board[((block_Y_Pos-135)/9)+dr][((block_X_Pos-270)/9)+dc]` the check reads. -/

/-- "CHECK IF BLOCK LANDS ON ANOTHER BLOCK (Y DIRECTION)" -/
def landingTable (c : Choose) : List (ℤ × ℤ) :=
  if c.chooseO then [(2, 0), (2, 1)]
  else if c.chooseIHoriz then [(1, 0), (1, 1), (1, 2), (1, 3)]
  else if c.chooseIVert then [(4, 0)]
  else if c.chooseZHoriz then [(1, 0), (2, 1), (2, 2)]
  else if c.chooseZVert then [(3, 0), (2, 1)]
  else if c.chooseSHoriz then [(2, 0), (2, 1), (1, 2)]
  else if c.chooseSVert then [(2, 0), (3, 1)]
  else if c.chooseJUp then [(3, 0), (3, 1)]
  else if c.chooseJDown then [(3, 0), (1, 1)]
  else if c.chooseJLeft then [(1, 0), (1, 1), (2, 2)]
  else if c.chooseJRight then [(2, 0), (2, 1), (2, 2)]
  else if c.chooseLUp then [(3, 0), (3, 1)]
  else if c.chooseLDown then [(3, 1), (1, 0)]
  else if c.chooseLLeft then [(2, 0), (2, 1), (2, 2)]
  else if c.chooseLRight then [(2, 0), (1, 1), (1, 2)]
  else if c.chooseTUp then [(2, 0), (2, 1), (2, 2)]
  else if c.chooseTDown then [(1, 0), (2, 1), (1, 2)]
  else if c.chooseTLeft then [(2, 0), (3, 1)]
  else if c.chooseTRight then [(3, 0), (2, 1)]
  else []

/-- The checks under key LEFT. -/
def leftTable (c : Choose) : Option (List (ℤ × ℤ)) :=
  if c.chooseO then some [(0, -1), (1, -1)]
  else if c.chooseIHoriz then some [(0, -1)]
  else if c.chooseIVert then some [(0, -1), (1, -1), (2, -1), (3, -1)]
  else if c.chooseZHoriz then some [(0, -1), (1, 0)]
  else if c.chooseZVert then some [(0, 0), (1, -1), (2, -1)]
  else if c.chooseSHoriz then some [(0, 0), (1, -1)]
  else if c.chooseSVert then some [(0, -1), (1, -1), (2, 0)]
  else if c.chooseJLeft then some [(0, -1), (1, 1)]
  else if c.chooseJRight then some [(0, -1), (1, -1)]
  else if c.chooseJUp then some [(0, 0), (1, 0), (2, -1)]
  else if c.chooseJDown then some [(0, -1), (1, -1), (2, -1)]
  else if c.chooseLLeft then some [(1, -1), (0, 1)]
  else if c.chooseLRight then some [(0, -1), (1, -1)]
  else if c.chooseLUp then some [(0, -1), (1, -1), (2, -1)]
  else if c.chooseLDown then some [(0, -1), (1, 0), (2, 0)]
  else if c.chooseTLeft then some [(0, 0), (1, -1), (2, 0)]
  else if c.chooseTRight then some [(0, -1), (1, -1), (2, -1)]
  else if c.chooseTUp then some [(0, 0), (1, -1)]
  else if c.chooseTDown then some [(0, -1), (1, 0)]
  else none

/-- The checks under key RIGHT. -/
def rightTable (c : Choose) : Option (List (ℤ × ℤ)) :=
  if c.chooseO then some [(0, 2), (1, 2)]
  else if c.chooseIHoriz then some [(0, 4)]
  else if c.chooseIVert then some [(0, 1), (1, 1), (2, 1), (3, 1)]
  else if c.chooseZHoriz then some [(0, 2), (1, 3)]
  else if c.chooseZVert then some [(0, 2), (1, 2), (2, 1)]
  else if c.chooseSHoriz then some [(0, 3), (1, 2)]
  else if c.chooseSVert then some [(0, 1), (1, 2), (2, 2)]
  else if c.chooseJLeft then some [(0, 3), (1, 3)]
  else if c.chooseJRight then some [(0, 1), (1, 3)]
  else if c.chooseJUp then some [(0, 2), (1, 2), (2, 2)]
  else if c.chooseJDown then some [(0, 2), (1, 1), (2, 1)]
  else if c.chooseLLeft then some [(0, 3), (1, 3)]
  else if c.chooseLRight then some [(0, 3), (1, 1)]
  else if c.chooseLUp then some [(0, 1), (1, 1), (2, 2)]
  else if c.chooseLDown then some [(0, 2), (1, 2), (2, 2)]
  else if c.chooseTLeft then some [(0, 2), (1, 2), (2, 2)]
  else if c.chooseTRight then some [(0, 1), (1, 2), (2, 1)]
  else if c.chooseTUp then some [(0, 2), (1, 3)]
  else if c.chooseTDown then some [(0, 3), (1, 2)]
  else none

/-- Some cell of the table is not empty, with the piece at `(xPos, yPos)`. -/
def MotionInputs.hits (i : MotionInputs) (xPos yPos : BitVec 10) (cells : List (ℤ × ℤ)) : Bool :=
  cells.any fun d =>
    read i.undefinedRead i.board (offset (gridRow yPos) d.1) (offset (gridCol xPos) d.2) != 0

/-! ## The sections of the `always_comb` block -/

/-- "CHECK IF BLOCK REACHED BOTTOM" and the landing check. -/
def checkLanding (m : MotionRegs) (i : MotionInputs) (v : MotionComb) : MotionComb :=
  -- a piece whose Y motion an earlier frame cleared locks on this one
  let v := if m.blockYMotion = 0 then { v with atBottom := true } else v
  -- no guard by `Y_Max`: the table is read on the floor as well
  if i.hits m.blockXPos m.blockYPos (landingTable i.select.choose) then
    { v with atBottom := true }
  else v

/-- The motion a side check leaves: 0 on contact, else `step`; no select line
high leaves it alone. -/
def sideMotion (m : MotionRegs) (i : MotionInputs) (table : Option (List (ℤ × ℤ)))
    (step old : BitVec 10) : BitVec 10 :=
  match table with
  | some cells => if i.hits m.blockXPos m.blockYPos cells then 0 else step
  | none => old

/-- `(block_X_Pos + block_size_x) < X_Max`, in 10 bits. -/
def rightFree (m : MotionRegs) (i : MotionInputs) : Bool :=
  decide (m.blockXPos + i.select.blockSizeX.setWidth 10 < xMax)

/-- "CHECK FOR KEYPRESS; CHECK IF BLOCK RUNS INTO ANOTHER BLOCK (X DIRECTION)" -/
def checkKeys (m : MotionRegs) (i : MotionInputs) (v : MotionComb) : MotionComb :=
  if i.keypress then
    if i.keycode = 0x1C then -- LEFT (A)
      if m.blockXPos > xMin ∧ v.moveHoriz = false then
        { v with
          moveHoriz := true
          blockXMotionIn :=
            sideMotion m i (leftTable i.select.choose) (~~~stepSize + 1) v.blockXMotionIn }
      else v
    else if i.keycode = 0x23 then -- RIGHT (D)
      if rightFree m i ∧ v.moveHoriz = false then
        { v with
          moveHoriz := true
          blockXMotionIn :=
            sideMotion m i (rightTable i.select.choose) stepSize v.blockXMotionIn }
      else v
    else if i.keycode = 0x1b then -- DOWN (S)
      { v with blockYMotionIn := stepSize, fastDrop := true }
    else v
  else v

/-- "CHECK IF BEYOND X BOUNDARY" -/
def checkXBoundary (m : MotionRegs) (i : MotionInputs) (v : MotionComb) : MotionComb :=
  -- standing at a wall raises `move_horiz` as well, so `counter_x` runs on there
  if m.blockXPos + i.select.blockSizeX.setWidth 10 ≥ xMax ∧ v.moveHoriz = false then
    { v with blockXMotionIn := 0, moveHoriz := true }
  else if m.blockXPos ≤ xMin ∧ v.moveHoriz = false then
    { v with blockXMotionIn := 0, moveHoriz := true }
  else v

/-- "CHECK IF BEYOND Y BOUNDARY" -/
def checkYBoundary (m : MotionRegs) (i : MotionInputs) (v : MotionComb) : MotionComb :=
  -- clears what is latched for the next frames, not the step of this one
  if m.blockYPos + i.select.blockSizeY.setWidth 10 ≥ yMax then
    { v with blockXMotionIn := 0, blockYMotionIn := 0 }
  else if m.blockYPos ≤ yMin then { v with blockYMotionIn := stepSize }
  else v

/-- "UPDATE X BLOCK POSITION": the step taken is the stored motion. -/
def updateX (m : MotionRegs) (v : MotionComb) : MotionComb :=
  -- `counter_x_in` still has its default here, the stored counter
  if v.counterXIn = 6 ∧ v.moveHoriz then
    { v with blockXPosIn := m.blockXPos + m.blockXMotion, counterXIn := 0 }
  else if v.moveHoriz then { v with counterXIn := m.counterX + 1 }
  else v

/-- "UPDATE Y BLOCK POSITION": every 50th frame, or every 5th under key DOWN. -/
def updateY (m : MotionRegs) (v : MotionComb) : MotionComb :=
  let v := { v with counterYIn := m.counterY + 1 }
  if v.counterYIn = 50 then
    { v with blockYPosIn := m.blockYPos + m.blockYMotion, counterYIn := 0 }
  else if v.fastDrop ∧ v.counterYIn = 5 then
    { v with blockYPosIn := m.blockYPos + m.blockYMotion, counterYIn := 0 }
  else v

/-- The `always_comb` block of `block_motion`. -/
def motionComb (m : MotionRegs) (i : MotionInputs) : MotionComb :=
  -- between frame edges every variable keeps its default
  if m.frameClkRisingEdge then
    updateY m (updateX m (checkYBoundary m i (checkXBoundary m i
      (checkKeys m i (checkLanding m i m.defaults)))))
  else m.defaults

/-! ## The `always_ff` blocks -/

/-- The edge detector on `frame_clk`, which `Reset` does not touch. -/
def MotionRegs.sampleFrameClk (m : MotionRegs) (frameClk : Bool) : MotionRegs :=
  { m with
    frameClkDelayed := frameClk
    frameClkRisingEdge := frameClk && !m.frameClkDelayed }

/-- The `Reset || at_bottom` branch. -/
def MotionRegs.respawn (m : MotionRegs) : MotionRegs :=
  { m with
    blockXPos := blockXStart
    blockYPos := blockYStart
    blockXMotion := 0
    blockYMotion := stepSize
    counterY := 0
    counterX := 0 }

/-- The `else` branch: the registers load the `_in` variables. -/
def MotionRegs.latch (m : MotionRegs) (v : MotionComb) : MotionRegs :=
  { m with
    blockXPos := v.blockXPosIn
    blockYPos := v.blockYPosIn
    blockXMotion := v.blockXMotionIn
    blockYMotion := v.blockYMotionIn
    counterY := v.counterYIn
    counterX := v.counterXIn }

/-- The two `always_ff` blocks of `block_motion`. -/
def MotionRegs.step (m : MotionRegs) (i : MotionInputs) : MotionRegs :=
  -- both blocks read the old registers; the edge detector runs in either branch
  if i.reset || (motionComb m i).atBottom then (m.sampleFrameClk i.frameClk).respawn
  else (m.sampleFrameClk i.frameClk).latch (motionComb m i)

end Ece385.Tetris
