import Ece385.Tetris.Signals

/-!
# Tetris — `rotate_block.sv`

The eight-state orientation machine. A press of the rotate key (0x1D) that
passes the boundary test moves `Rotate_k` to `Rotate_k_wait`; the release
moves on to `Rotate_{k+1}`. The `rot_sel` decode has a case for the four
resting states only, the waiting states fall to its default of 0.
-/

namespace Ece385.Tetris

/-- `current_state` of `rotate_block`. -/
inductive RotateState where
  | rotate0 | rotate0Wait
  | rotate1 | rotate1Wait
  | rotate2 | rotate2Wait
  | rotate3 | rotate3Wait
  deriving DecidableEq

/-- The inputs `rotate_block` samples besides `Reset` and `new_shape`. -/
structure RotateInputs where
  keypress : Bool
  keycode : BitVec 8
  xPos : BitVec 10
  yPos : BitVec 10
  blockSizeX : BitVec 6
  blockSizeY : BitVec 6

/-- `(keypress == 1'b1) && (keycode == 8'h1d)` -/
def RotateInputs.rotateKey (i : RotateInputs) : Bool := i.keypress && i.keycode == 0x1d

/-- `Y_Pos + block_size_x > 333 + 1`: a horizontal shape may not turn. -/
def RotateInputs.beyondFloor (i : RotateInputs) : Bool :=
  decide (i.yPos.setWidth 32 + i.blockSizeX.setWidth 32 > 333#32 + 1#32)

/-- `X_Pos + block_size_y > 369 + 1`: a vertical shape may not turn. -/
def RotateInputs.beyondWall (i : RotateInputs) : Bool :=
  decide (i.xPos.setWidth 32 + i.blockSizeY.setWidth 32 > 369#32 + 1#32)

/-- A resting state leaves for its waiting state on a rotate press that is
not refused. -/
def RotateInputs.press (i : RotateInputs) (refused : Bool) (rest wait : RotateState) :
    RotateState :=
  if i.rotateKey then if refused then rest else wait else rest

/-- A waiting state moves on when the key is released. -/
def RotateInputs.release (i : RotateInputs) (wait next : RotateState) : RotateState :=
  if i.keypress = false then next else wait

/-- The next-state case statement of `rotate_block`. -/
def rotateNext (i : RotateInputs) : RotateState → RotateState
  | .rotate0 => i.press i.beyondFloor .rotate0 .rotate0Wait
  | .rotate0Wait => i.release .rotate0Wait .rotate1
  | .rotate1 => i.press i.beyondWall .rotate1 .rotate1Wait
  | .rotate1Wait => i.release .rotate1Wait .rotate2
  | .rotate2 => i.press i.beyondFloor .rotate2 .rotate2Wait
  | .rotate2Wait => i.release .rotate2Wait .rotate3
  | .rotate3 => i.press i.beyondWall .rotate3 .rotate3Wait
  | .rotate3Wait => i.release .rotate3Wait .rotate0

/-- The state register: `Reset` and `new_shape` put it back to `Rotate_0`. -/
def rotateStep (reset newShape : Bool) (i : RotateInputs) (s : RotateState) : RotateState :=
  -- a press that is being held is forgotten here
  if reset || newShape then .rotate0 else rotateNext i s

/-- The `rot_sel` decode, three bits wide as the port is declared. -/
def rotSel : RotateState → BitVec 3
  | .rotate0 => 0
  | .rotate1 => 1
  | .rotate2 => 2
  | .rotate3 => 3
  -- the four waiting states have no case of their own
  | _ => 0

end Ece385.Tetris
